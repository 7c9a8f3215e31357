import Handoff.Proofs.Judged

/-!
How many reads a transfer can take. A read with room gets a byte of the parcel or is the one that meets
an empty write; a read without room is a call of its own.
-/

namespace Handoff

namespace Parcel

/-- How many more reads with room can meet the parcel at most. -/
def portions (b : Parcel) : Nat :=
  if b.bytes = [] then if b.met then 0 else 1 else b.rest.length

theorem portions_advance (b : Parcel) (room : Nat) : (b.advance room).portions ≤ b.portions := by
  have hrest : (b.advance room).rest.length ≤ b.rest.length := by
    rw [rest_advance, List.length_drop]
    omega
  have hbytes : (b.advance room).bytes = b.bytes := rfl
  have hmet : (b.advance room).met = true := rfl
  unfold portions
  rw [hbytes, hmet]
  split
  · exact Nat.zero_le _
  · exact hrest

theorem portions_advance_lt {b : Parcel} (hs : b.Sound) (hf : b.finished = false) {room : Nat}
    (hr : room ≠ 0) : (b.advance room).portions < b.portions := by
  have hbytes : (b.advance room).bytes = b.bytes := rfl
  have hmet : (b.advance room).met = true := rfl
  unfold portions
  rw [hbytes, hmet]
  split
  · rename_i he
    have hrest : b.rest = [] := by rw [rest, he, List.drop_nil]
    have hb : b.met = false := by simpa [finished, hrest] using hf
    simp [hb]
  · rename_i he
    have hshort : b.passed < b.bytes.length := (hs.short hf).resolve_right fun h => he h.1
    rw [rest_advance, List.length_drop, rest, List.length_drop]
    omega

end Parcel

def rooms (es : List Effect) : List Nat :=
  es.filterMap fun
    | .handed room _ => some room
    | _ => none

@[simp] theorem rooms_append (es fs : List Effect) : rooms (es ++ fs) = rooms es ++ rooms fs :=
  List.filterMap_append

theorem length_rooms (es : List Effect) : (rooms es).length = (handed es).length := by
  induction es with
  | nil => rfl
  | cons e es ih =>
    cases e with
    | handed room bytes => exact congrArg (· + 1) ih
    | _ => exact ih

theorem rooms_of_handed {es : List Effect} (h : handed es = []) : rooms es = [] := by
  rw [← List.length_eq_zero_iff, length_rooms, h, List.length_nil]

/-- The bytes that have been put up, and the writes of none. -/
def offered (es : List Effect) : Nat :=
  ((placed es).flatMap Prod.snd).length + (placed es).countP fun o => o.2 = []

theorem offered_append (es fs : List Effect) : offered (es ++ fs) = offered es + offered fs := by
  simp only [offered, placed_append, List.flatMap_append, List.length_append, List.countP_append]
  omega

theorem Pipe.placed_place (p : Pipe) (origin : Origin) (bytes : Bytes) :
    placed (p.place origin bytes).effects = [(origin, bytes)] :=
  congrArg (_ :: ·) (placed_announce _)

def Pipe.portions (p : Pipe) : Nat :=
  (p.parcel.map Parcel.portions).getD 0

theorem Pipe.portions_place (p : Pipe) (origin : Origin) (bytes : Bytes) :
    (p.place origin bytes).state.portions = offered (p.place origin bytes).effects := by
  rw [offered, placed_place]
  by_cases hb : bytes = []
  · simp [portions, place, announce, Parcel.portions, Parcel.fresh, hb]
  · simp [portions, place, announce, Parcel.portions, Parcel.fresh, Parcel.rest, hb]

theorem Pipe.portions_advance {p : Pipe} {b : Parcel} (hp : p.parcel = some b) (hs : b.Sound)
    (hf : b.finished = false) (room : Nat) :
    [room].countP (· ≠ 0) + (p.advance b room).portions ≤ p.portions := by
  have hb : p.portions = b.portions := by simp [portions, hp]
  have hadv : (p.advance b room).portions ≤ (b.advance room).portions := by
    unfold advance
    split <;> simp [portions]
  have hle := b.portions_advance room
  by_cases hr : room = 0
  · simp only [hr, List.countP_singleton, ne_eq, not_true_eq_false, decide_false]
    subst hr
    simp only [Bool.false_eq_true, if_false]
    omega
  · have hlt := Parcel.portions_advance_lt hs hf hr
    simp only [hr, List.countP_singleton, ne_eq, not_false_eq_true, decide_true, if_true]
    omega

theorem Channel.Change.portions {c d : Channel} {es : List Effect} (h : c.Change es d) :
    d.pipe.portions ≤ c.pipe.portions + offered es := by
  have same {p : Pipe} (hp : p.parcel = c.pipe.parcel) : p.portions ≤ c.pipe.portions + offered es := by
    rw [Pipe.portions, hp]
    exact Nat.le_add_right _ _
  cases h with
  | mode | conclude | forsake => exact same rfl
  | close half reason => exact same (c.pipe.parcel_close half reason)
  | await | watch => exact same (Pipe.parcel_park ..)
  | fail | withdraw => exact Nat.zero_le _
  | stage slice =>
    rw [Nat.add_comm]
    exact Nat.le_add_right_of_le (Nat.le_of_eq (Pipe.portions_place _ _ slice.bytes))

theorem Channel.Changes.portions {c d : Channel} {es : List Effect} (h : c.Changes es d) :
    d.pipe.portions ≤ c.pipe.portions + offered es := by
  induction h with
  | nil => exact Nat.le_add_right _ _
  | cons h _ ih =>
    have := h.portions
    rw [offered_append]
    omega

theorem Section.portions {owner : Nat} {lent left : Option Bytes} {c d : Channel} {es : List Effect}
    (h : Section owner lent c es d left) (hs : c.pipe.Sound) :
    (rooms es).countP (· ≠ 0) + d.pipe.portions ≤ c.pipe.portions + offered es := by
  cases h with
  | @pull _ b room _ hb =>
    obtain ⟨hp, hf⟩ := Pipe.available_eq_some hb
    have hrooms : rooms (.handed room (b.front room) :: (c.pipe.advance b room).announce.effects) =
        [room] := congrArg (room :: ·) (rooms_of_handed (Pipe.handed_announce _))
    rw [hrooms]
    exact Nat.le_add_right_of_le (Pipe.portions_advance hp (hs.parcel b hp) hf room)
  | enter bytes =>
    rw [rooms_of_handed (Pipe.handed_place _ _ _), List.countP_nil, Nat.zero_add, Nat.add_comm]
    exact Nat.le_add_right_of_le (Nat.le_of_eq (Pipe.portions_place _ _ bytes))
  | leave bytes _ he =>
    rw [rooms_of_handed (by rw [handed_append, Pipe.handed_vacate, handed_of_consumed he]; rfl)]
    exact Nat.zero_le _
  | other h =>
    rw [rooms_of_handed h.handed_eq, List.countP_nil, Nat.zero_add]
    exact h.portions

def Call.room? {half : Half} : Call half → Option Nat
  | receive room | read room | drain room _ => some room
  | prompt (.tryReceive room) | prompt (.pollRead room _) => some room
  | _ => none

theorem Pipe.rooms_pull (p : Pipe) (room : Nat) :
    rooms (p.pull room).effects = [] ∨
      rooms (p.pull room).effects = [room] ∧
        ∃ bytes, (p.pull room).value = .ok (some bytes) ∧ (room = 0 → bytes = []) := by
  rcases p.pull_cases room with ⟨result, -, he⟩ | ⟨b, -, -, he⟩
  · exact .inl (congrArg (fun s => rooms s.effects) he)
  · rw [he]
    refine .inr ⟨congrArg (room :: ·) (rooms_of_handed (handed_announce _)), b.front room, rfl, ?_⟩
    rintro rfl
    exact List.take_zero

theorem Pipe.effects_pollPull (p : Pipe) (room : Nat) (waker : Waker) :
    (p.pollPull room waker).effects = (p.pull room).effects := by
  unfold pollPull
  dsimp only
  split <;> rfl

theorem Channel.rooms_look {c : Channel} {room : Nat} {s : Step Channel Look}
    (h : c.look room = some s) :
    rooms s.effects = [] ∨ rooms s.effects = [room] ∧ (room = 0 → s.value = .settled (.ok [])) := by
  rcases look_cases h with ⟨result, hv, rfl⟩ | ⟨hv, -, rfl⟩
  · refine (c.pipe.rooms_pull room).imp_right ?_
    rintro ⟨hr, bytes, hb, he⟩
    refine ⟨hr, fun h0 => ?_⟩
    cases result with
    | error reason => cases hv.symm.trans hb
    | ok got =>
      obtain rfl : got = bytes := Option.some.inj (Except.ok.inj (hv.symm.trans hb))
      simp [Look.ofPull, he h0, h0]
  · exact .inl (rooms_of_handed (Pipe.handed_of_idle hv))

theorem Channel.rooms_pollLook (c : Channel) (room : Nat) (waker : Waker) :
    rooms (c.pollLook room waker).effects = [] ∨ rooms (c.pollLook room waker).effects = [room] ∧
      (room = 0 → (c.pollLook room waker).value = .ready (.settled (.ok []))) := by
  have he : (c.pollLook room waker).effects = (c.pipe.pull room).effects :=
    c.pipe.effects_pollPull room waker
  rw [he]
  refine (c.pipe.rooms_pull room).imp_right ?_
  rintro ⟨hr, bytes, hb, hn⟩
  refine ⟨hr, fun h0 => ?_⟩
  simp only [pollLook, Pipe.pollPull, hb]
  simp [Poll.map, Look.ofPull, hn h0, h0]

theorem Prompt.rooms_advance {half : Half} (p : Prompt half) (c : Channel) :
    rooms (p.advance c).effects = [] ∨ ∃ room, (Call.prompt p).room? = some room ∧
      rooms (p.advance c).effects = [room] ∧
        (room = 0 → ∃ answer, (p.advance c).value = .answered answer) := by
  cases p with
  | tryReceive room =>
    refine (c.pipe.rooms_pull room).imp_right ?_
    rintro ⟨hr, bytes, hb, -⟩
    refine ⟨room, rfl, hr, fun _ => ?_⟩
    simp only [advance, Channel.value_lift, Step.value_map, hb]
    exact ⟨_, rfl⟩
  | pollRead room waker =>
    refine (c.rooms_pollLook room waker).imp_right ?_
    rintro ⟨hr, hv⟩
    refine ⟨room, rfl, hr, fun h0 => ?_⟩
    simp only [advance, Step.value_map, hv h0]
    exact ⟨_, rfl⟩
  | pollWrite slice waker => exact .inl (rooms_of_handed (c.changes_pollWrite slice waker).handed_eq)
  | pollFlush waker | pollClose waker =>
    exact .inl (rooms_of_handed (c.changes_pollFlush waker).handed_eq)
  | closeFlushed => exact .inl (rooms_of_handed (Channel.Change.close c .write none).handed_eq)
  | close reason => exact .inl (rooms_of_handed (Channel.Change.close c half reason).handed_eq)
  | setNonblocking | isClosed | describe => exact .inl rfl

/-- A read without room has ended as soon as it has met a parcel. -/
theorem Call.rooms_advance {half : Half} {owner : Nat} {call : Call half} {c : Channel}
    {s : Step Channel (Progress (Call half))} (h : call.advance owner c = some s) :
    rooms s.effects = [] ∨ ∃ room, call.room? = some room ∧ rooms s.effects = [room] ∧
      (room = 0 → ∃ answer, s.value = .answered answer) := by
  cases call with
  | prompt p =>
    obtain rfl := Option.some.inj h
    refine (p.rooms_advance c).imp_right ?_
    rintro ⟨room, hr, he, hv⟩
    refine ⟨room, hr, he, fun h0 => ?_⟩
    obtain ⟨answer, hv⟩ := hv h0
    exact ⟨answer, by rw [Step.value_map, hv]; rfl⟩
  | receive room =>
    obtain ⟨result, hv, rfl⟩ := receive_cases h
    refine (c.pipe.rooms_pull room).imp_right ?_
    rintro ⟨hr, -⟩
    exact ⟨room, rfl, hr, fun _ => ⟨_, rfl⟩⟩
  | read room | drain room chunks =>
    obtain ⟨l, hl, rfl⟩ := Option.map_eq_some_iff.mp h
    refine (Channel.rooms_look hl).imp_right ?_
    rintro ⟨hr, hv⟩
    refine ⟨room, rfl, hr, fun h0 => ?_⟩
    simp only [Step.value_map, hv h0]
    exact ⟨_, rfl⟩
  | send bytes placed | write bytes placed =>
    cases placed with
    | false =>
      obtain ⟨l, hl, rfl⟩ := Option.map_eq_some_iff.mp h
      exact .inl (rooms_of_handed (Pipe.handed_enter hl))
    | true =>
      obtain ⟨l, hl, rfl⟩ := Option.map_eq_some_iff.mp h
      exact .inl (rooms_of_handed (Pipe.handed_leave hl))
  | flush =>
    obtain rfl := Option.some.inj h
    exact .inl rfl

def Deed.call? (d : Deed) : Option ((half : Half) × Call half) :=
  match d.move with
  | .turn id => d.found.call? id
  | .spawn _ => none

/-- With this deed a read that had no room has ended. -/
def Deed.endsRoomless (d : Deed) : Bool :=
  d.step.value.isSome && d.call?.any fun call => call.2.room? = some 0

theorem Link.roomless_move {l : Link} {m : Move} {s : Step Link (Option Event)}
    (h : l.move m = some s) :
    (rooms s.effects).countP (· = 0) ≤ [Deed.mk l m s].countP Deed.endsRoomless := by
  cases m with
  | spawn t =>
    obtain ⟨-, -, rfl⟩ := spawned_of_move h
    exact Nat.zero_le _
  | turn id =>
    cases turned_of_advance h with
    | @called before after t call rest r ht hi hb hc hr =>
      subst hi
      rcases Call.rooms_advance hr with he | ⟨room, hroom, he, hv⟩
      · rw [he]
        exact Nat.zero_le _
      · rw [he, List.countP_singleton, List.countP_singleton]
        by_cases h0 : room = 0
        · obtain ⟨answer, hv⟩ := hv h0
          have hends : Deed.endsRoomless ⟨l, .turn t.id, ⟨t.tell r.value, { l with
              channel := r.state, tasks := before ++ t.proceed rest r.value :: after }, r.effects⟩⟩ = true := by
            simp [Deed.endsRoomless, Deed.call?, call?_of_tasks ht hb hc, hroom, h0, hv, Task.tell]
          rw [hends]
          simp [h0]
        · simp [h0]
    | ended => exact Nat.zero_le _
    | dropped ht =>
      rw [rooms_of_handed (Channel.Change.close l.channel _ none).handed_eq]
      exact Nat.zero_le _

theorem Run.takes_le {l m : Link} {deeds : List Deed} (run : Run l deeds m) (hl : l.Reachable) :
    (handed (effects deeds)).length + m.channel.pipe.portions ≤
      l.channel.pipe.portions + offered (effects deeds) + deeds.countP Deed.endsRoomless := by
  -- Takes with room use up portions; each take without room ends its call.
  suffices h : (rooms (effects deeds)).countP (· ≠ 0) + m.channel.pipe.portions ≤
        l.channel.pipe.portions + offered (effects deeds) ∧
      (rooms (effects deeds)).countP (· = 0) ≤ deeds.countP Deed.endsRoomless by
    have hsplit := (rooms (effects deeds)).length_eq_countP_add_countP (· = 0)
    simp only [length_rooms, decide_eq_true_eq] at hsplit
    simp only [ne_eq] at h
    omega
  induction run with
  | start => exact ⟨Nat.le_of_eq (Nat.zero_add _), Nat.le_refl _⟩
  | @next deeds n move s run h ih =>
    obtain ⟨hroom, hless⟩ := ih
    obtain ⟨settings, earlier, hr⟩ := hl
    have hn : n.Reachable := ⟨settings, _, hr.trans run⟩
    obtain ⟨_, _, _, hsec⟩ := Link.section_of_move h
    have hstep := hsec.portions hn.sound
    have hmove := Link.roomless_move h
    simp only [effects_concat, rooms_append, List.countP_append, offered_append]
    omega

end Handoff
