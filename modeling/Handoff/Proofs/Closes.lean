import Handoff.Proofs.Reasons
import Handoff.Proofs.Mirror
import Handoff.Proofs.Run
import Handoff.Proofs.Turn

/-!
The closes of a run. Nothing else shuts a pipe, keeps a reason in it, or logs that it has been shut.
-/

namespace Handoff

def shutdowns (es : List Effect) : List Half :=
  es.filterMap fun
    | .logged (.closed half) => some half
    | _ => none

@[simp] theorem shutdowns_append (es fs : List Effect) :
    shutdowns (es ++ fs) = shutdowns es ++ shutdowns fs :=
  List.filterMap_append

@[simp] theorem shutdowns_announce (p : Pipe) : shutdowns p.announce.effects = [] := by
  simp [shutdowns, Pipe.announce, List.filterMap_map]

/-- The reason that the first of these closes of the half has. -/
def firstReason (half : Half) (closes : List (Half × Reason)) : Option Reason :=
  (closes.find? fun c => c.1 = half).map Prod.snd

theorem firstReason_append (half : Half) (cs ds : List (Half × Reason)) :
    firstReason half (cs ++ ds) = (firstReason half cs).or (firstReason half ds) := by
  rw [firstReason, List.find?_append, Option.map_or]
  rfl

theorem firstReason_singleton (half other : Half) (reason : Reason) :
    firstReason other [(half, reason)] = if other = half then some reason else none := by
  cases half <;> cases other <;> rfl

theorem firstReason_or_other {cs : List (Half × Reason)} (h : cs ≠ []) (half : Half) :
    ((firstReason half cs).or (firstReason half.other cs)).isSome := by
  obtain ⟨c, rest, rfl⟩ := List.exists_cons_of_ne_nil h
  have hc : c.1 = half ∨ c.1 = half.other := by cases c.1 <;> cases half <;> simp [Half.other]
  rcases hc with hc | hc
  · simp [firstReason, hc]
  · simp [firstReason, hc]

/-- These closes, and only they, stand between the two pipes. -/
structure Blamed (p : Pipe) (closes : List (Half × Reason)) (es : List Effect) (q : Pipe) : Prop where
  closed : q.closed = (p.closed || !closes.isEmpty)
  own : ∀ half, q.ownReason half = (p.ownReason half).or (firstReason half closes)
  shutdowns : shutdowns es = if p.closed then [] else (closes.head?.map Prod.fst).toList

namespace Blamed

theorem same {p q : Pipe} (hc : q.closed = p.closed) (hr : ∀ half, q.ownReason half = p.ownReason half)
    {es : List Effect} (he : Handoff.shutdowns es = []) : Blamed p [] es q where
  closed := by simp [hc]
  own half := by simp [hr, firstReason]
  shutdowns := by simp [he]

theorem refl (p : Pipe) : Blamed p [] [] p :=
  .same rfl (fun _ => rfl) rfl

theorem trans {p q r : Pipe} {cs ds : List (Half × Reason)} {es fs : List Effect}
    (h : Blamed p cs es q) (t : Blamed q ds fs r) : Blamed p (cs ++ ds) (es ++ fs) r where
  closed := by
    rw [t.closed, h.closed]
    cases p.closed <;> cases cs <;> rfl
  own half := by rw [t.own, h.own, firstReason_append, Option.or_assoc]
  shutdowns := by
    rw [shutdowns_append, h.shutdowns, t.shutdowns, h.closed]
    cases p.closed <;> cases cs <;> simp

theorem close (p : Pipe) (half : Half) (reason : Option Reason) :
    Blamed p [(half, reason.getD (Pipe.defaultReason half))] (p.close half reason).effects
      (p.close half reason).state where
  closed := by simp
  own other := by
    have hk := p.ownReason_keepReason half other (reason.getD (Pipe.defaultReason half))
    have hs : (p.close half reason).state.ownReason other =
        (p.keepReason half (reason.getD (Pipe.defaultReason half))).ownReason other := by
      cases other <;> rfl
    rw [hs, hk, firstReason_singleton]
    split
    · rename_i ho
      rw [ho]
    · rw [Option.or_none]
  shutdowns := by
    rw [Pipe.effects_close, shutdowns_append, shutdowns_announce, List.append_nil]
    split <;> rfl

theorem vacate (p : Pipe) : Blamed p [] p.vacate.effects p.vacate.state := by
  refine @same p p.vacate.state rfl (fun half => ?_) _ (shutdowns_announce _)
  cases half <;> rfl

theorem place (p : Pipe) (origin : Origin) (bytes : Bytes) :
    Blamed p [] (p.place origin bytes).effects (p.place origin bytes).state := by
  refine @same p (p.place origin bytes).state rfl (fun half => ?_) _ (shutdowns_announce _)
  cases half <;> rfl

theorem park (p : Pipe) (half : Half) (waker : Waker) : Blamed p [] [] (p.park half waker) :=
  .same (p.closed_park half waker) (p.ownReason_park half · waker) rfl

theorem pull (p : Pipe) (room : Nat) : Blamed p [] (p.pull room).effects (p.pull room).state := by
  rcases p.pull_cases room with ⟨result, -, he⟩ | ⟨b, -, -, he⟩
  · rw [he]
    exact .refl p
  · rw [he]
    refine .same ?_ (fun half => ?_) (shutdowns_announce _)
    · rw [Step.state_after, Step.state_map, Pipe.closed_announce]
      unfold Pipe.advance
      split <;> rfl
    · simp [Pipe.ownReason_advance]

theorem pollPull (p : Pipe) (room : Nat) (waker : Waker) :
    Blamed p [] (p.pollPull room waker).effects (p.pollPull room waker).state := by
  have hp := Blamed.pull p room
  unfold Pipe.pollPull
  dsimp only
  split
  · exact hp
  · have hpark := hp.trans (.park (p.pull room).state .read waker)
    rw [List.append_nil, List.append_nil] at hpark
    exact hpark
  · exact hp

theorem enter {p : Pipe} {owner : Nat} {bytes : Bytes} {s : Step Pipe (Except ShortWrite Unit)}
    (h : p.enter owner bytes = some s) : Blamed p [] s.effects s.state := by
  rcases Pipe.enter_cases h with rfl | ⟨-, -, rfl⟩
  · exact .refl p
  · exact .place p (.lent owner) bytes

theorem leave {p : Pipe} {s : Step Pipe (Except ShortWrite Nat)} (h : p.leave = some s) :
    Blamed p [] s.effects s.state := by
  obtain ⟨-, result, log, rfl, hlog⟩ := Pipe.leave_cases h
  refine (Blamed.vacate p).trans (.same rfl (fun _ => rfl) ?_)
  rw [Handoff.shutdowns, List.filterMap_eq_nil_iff]
  intro e he
  obtain ⟨count, rfl⟩ := hlog e he
  rfl

theorem watch (c : Channel) (write : Outstanding) (waker : Waker) :
    Blamed c.pipe [] (c.watch write waker).effects (c.watch write waker).state.pipe := by
  unfold Channel.watch
  split
  · exact .same rfl (fun _ => rfl) rfl
  · split
    · exact .vacate c.pipe
    · exact .park c.pipe .write waker

theorem cancel (c : Channel) (write : Outstanding) :
    Blamed c.pipe [] (c.cancel write).effects (c.cancel write).state.pipe := by
  unfold Channel.cancel
  dsimp only
  split
  · have hlog : Blamed c.pipe [] [.logged (.withdrawn write.slice.bytes.length)] c.pipe :=
      .same rfl (fun _ => rfl) rfl
    exact hlog.trans (.vacate c.pipe)
  · exact .refl c.pipe

theorem start (c : Channel) (slice : Slice) (waker : Waker) :
    Blamed c.pipe [] (c.start slice waker).effects (c.start slice waker).state.pipe := by
  unfold Channel.start
  split
  · exact .refl c.pipe
  · split
    · exact .park c.pipe .write waker
    · have hstamp : Blamed c.pipe [] [] { c.pipe with nextStamp := c.pipe.nextStamp + 1 } := by
        constructor
        · exact (Bool.or_false _).symm
        · intro half
          cases half <;> exact (Option.or_none).symm
        · exact (ite_self _).symm
      have hplace := hstamp.trans (.place _ (.copied c.pipe.nextStamp) slice.bytes)
      have hpark := hplace.trans (.park _ .write waker)
      simp only [List.append_nil, List.nil_append] at hpark
      exact hpark

theorem pollWrite (c : Channel) (slice : Slice) (waker : Waker) :
    Blamed c.pipe [] (c.pollWrite slice waker).effects (c.pollWrite slice waker).state.pipe := by
  unfold Channel.pollWrite
  cases c.outstanding with
  | none => exact start c slice waker
  | some write =>
    dsimp only
    split
    · exact watch c write waker
    · exact (cancel c write).trans (start _ slice waker)

theorem pollFlush (c : Channel) (waker : Waker) :
    Blamed c.pipe [] (c.pollFlush waker).effects (c.pollFlush waker).state.pipe := by
  unfold Channel.pollFlush
  cases c.outstanding with
  | none => exact .refl c.pipe
  | some write => exact watch c write waker

theorem look {c : Channel} {room : Nat} {s : Step Channel Channel.Look} (h : c.look room = some s) :
    Blamed c.pipe [] s.effects s.state.pipe := by
  rcases Channel.look_cases h with ⟨result, -, rfl⟩ | ⟨-, -, rfl⟩
  · exact .pull c.pipe room
  · exact .pull c.pipe room

end Blamed

structure Untouched (p : Pipe) : Prop where
  closed : p.closed = false
  own : ∀ half, p.ownReason half = none

theorem Untouched.blamed {p q : Pipe} {es : List Effect} (h : Untouched p) (hb : Blamed p [] es q) :
    Untouched q where
  closed := by rw [hb.closed, h.closed]; rfl
  own half := by rw [hb.own, h.own]; rfl

/-- The close that is the next step, if it is one. -/
def closeOf (half : Half) (closing : Option (Option Reason)) : List (Half × Reason) :=
  (closing.map fun reason => (half, reason.getD (Pipe.defaultReason half))).toList

theorem Prompt.blamed {half : Half} (p : Prompt half) (c : Channel) :
    Blamed c.pipe (closeOf half p.closing) (p.advance c).effects (p.advance c).state.pipe := by
  cases p with
  | tryReceive room => exact .pull c.pipe room
  | pollRead room waker => exact .pollPull c.pipe room waker
  | setNonblocking | isClosed | describe => exact .refl c.pipe
  | pollWrite slice waker => exact .pollWrite c slice waker
  | pollFlush waker | pollClose waker => exact .pollFlush c waker
  | closeFlushed => exact .close c.pipe .write none
  | close reason => exact .close c.pipe half reason

theorem Call.blamed {half : Half} {owner : Nat} {call : Call half} {c : Channel}
    {s : Step Channel (Progress (Call half))} (h : call.advance owner c = some s) :
    Blamed c.pipe (closeOf half call.closing) s.effects s.state.pipe := by
  cases call with
  | prompt p =>
    obtain rfl := Option.some.inj h
    exact p.blamed c
  | receive room =>
    obtain ⟨result, -, rfl⟩ := receive_cases h
    exact .pull c.pipe room
  | read room | drain room chunks =>
    obtain ⟨l, hl, rfl⟩ := Option.map_eq_some_iff.mp h
    exact .look hl
  | send bytes placed | write bytes placed =>
    cases placed with
    | false =>
      obtain ⟨l, hl, rfl⟩ := Option.map_eq_some_iff.mp h
      exact .enter hl
    | true =>
      obtain ⟨l, hl, rfl⟩ := Option.map_eq_some_iff.mp h
      exact .leave hl
  | flush =>
    obtain rfl := Option.some.inj h
    exact .refl c.pipe

def Link.closes (l : Link) (id : Nat) : List (Half × Reason) :=
  ((l.task? id).map fun t => closeOf t.half t.closing).getD []

theorem Link.closes_of_tasks {l : Link} {before after : List Task} {t : Task}
    (ht : l.tasks = before ++ t :: after) (hb : ∀ u ∈ before, u.id ≠ t.id) :
    l.closes t.id = closeOf t.half t.closing := by
  rw [closes, task?_of_tasks ht hb]
  rfl

def Deed.closes (d : Deed) : List (Half × Reason) :=
  match d.move with
  | .spawn _ => []
  | .turn id => d.found.closes id

def closes (deeds : List Deed) : List (Half × Reason) :=
  deeds.flatMap Deed.closes

@[simp] theorem closes_append (deeds more : List Deed) :
    closes (deeds ++ more) = closes deeds ++ closes more :=
  List.flatMap_append

theorem Link.blamed_turn {l : Link} {id : Nat} {s : Step Link (Option Event)} (h : l.Turned id s) :
    Blamed l.channel.pipe (l.closes id) s.effects s.state.channel.pipe := by
  cases h with
  | @called before after t call rest r ht hi hb hc hr =>
    subst hi
    have hk : t.closing = call.closing := by rw [Task.closing, hc]
    rw [closes_of_tasks ht hb, hk]
    exact Call.blamed hr
  | @ended before after t ht hi hb hc hm =>
    subst hi
    have hk : t.closing = none := by simp [Task.closing, hc, hm]
    rw [closes_of_tasks ht hb, hk]
    exact .refl _
  | @dropped before after t ht hi hb hc hm =>
    subst hi
    have hk : t.closing = some none := by simp [Task.closing, hc, hm]
    rw [closes_of_tasks ht hb, hk, channel_markGone]
    exact .close _ t.half none

theorem Link.blamed_move {l : Link} {m : Move} {s : Step Link (Option Event)} (h : l.move m = some s) :
    Blamed l.channel.pipe (Deed.closes ⟨l, m, s⟩) s.effects s.state.channel.pipe := by
  cases m with
  | spawn t =>
    obtain ⟨-, -, rfl⟩ := spawned_of_move h
    exact .refl _
  | turn id => exact blamed_turn (turned_of_advance h)

theorem Run.blamed {l m : Link} {deeds : List Deed} (run : Run l deeds m) :
    Blamed l.channel.pipe (closes deeds) (effects deeds) m.channel.pipe := by
  induction run with
  | start => exact .refl _
  | @next deeds m move s _ h ih =>
    have hd : closes [⟨m, move, s⟩] = Deed.closes ⟨m, move, s⟩ := List.append_nil _
    rw [closes_append, hd, effects_concat]
    exact ih.trans (Link.blamed_move h)

end Handoff
