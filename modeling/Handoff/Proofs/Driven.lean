import Handoff.Proofs.Ends
import Handoff.Proofs.Polled

/-!
A writer that only polls. It polls one slice after the other, each until its write is ready; the last one
it may leave to the close, which it then polls until that is ready.
-/

namespace Handoff

/-- Readers may do anything but close, and on the other half nothing is called. -/
def Link.Aside (l : Link) : Move → Prop
  | .spawn _ => True
  | .turn id => ∀ t, l.task? id = some t → t.closing = none ∧ (t.half = .write → t.calls = [])

theorem Link.Aside.step {l : Link} {move : Move} (h : l.Aside move) {s : Step Link (Option Event)}
    (hm : l.move move = some s) :
    s.effects = [] ∧ s.state.channel = l.channel ∨
      ∃ owner r, ∃ call : Call .read, call.closing = none ∧
        call.advance owner l.channel = some r ∧ s.effects = r.effects ∧ s.state.channel = r.state := by
  cases move with
  | spawn t =>
    obtain ⟨-, -, rfl⟩ := spawned_of_move hm
    exact .inl ⟨rfl, rfl⟩
  | turn id =>
    cases turned_of_advance hm with
    | @called before after t call rest r ht hi hb hk hr =>
      subst hi
      obtain ⟨hcl, hw⟩ := h t (task?_of_tasks ht hb)
      rw [Task.closing, hk] at hcl
      obtain ⟨id, name, half, mode, made, calls⟩ := t
      cases half with
      | write => cases (hw rfl).symm.trans hk
      | read => exact .inr ⟨id, r, call, hcl, hr, rfl, rfl⟩
    | ended => exact .inl ⟨rfl, rfl⟩
    | @dropped before after t ht hi hb hk hmode =>
      subst hi
      have hcl := (h t (task?_of_tasks ht hb)).1
      simp [Task.closing, hk, hmode] at hcl

/-- Where the writer is: at the first of some slices, polled already or not, or at a step of its close. -/
inductive Script
  | writing (todo : List Slice) (polled : Bool)
  | closing
  | flushed
  | closed

/-- The writer may turn to its close once it has polled its last slice. -/
def Script.mayClose : Script → Prop
  | writing todo polled => todo = [] ∨ polled = true ∧ todo.length = 1
  | closing => True
  | flushed | closed => False

/-- A run in which the writer polls these slices and then its close, and the reader does not close. -/
inductive Driven (settings : Settings) (slices : List Slice) : List Deed → Link → Script → Prop
  | start : Driven settings slices [] (.opened settings) (.writing slices false)
  | aside {deeds : List Deed} {l : Link} {script : Script} {move : Move}
      {s : Step Link (Option Event)} (h : Driven settings slices deeds l script)
      (hm : l.move move = some s) (ha : l.Aside move) :
      Driven settings slices (deeds ++ [⟨l, move, s⟩]) s.state script
  | again {deeds : List Deed} {l : Link} {slice : Slice} {rest : List Slice} {polled : Bool}
      {id : Nat} {waker : Waker} {s : Step Link (Option Event)}
      (h : Driven settings slices deeds l (.writing (slice :: rest) polled))
      (hm : l.move (.turn id) = some s)
      (hc : l.call? id = some ⟨.write, .prompt (.pollWrite slice waker)⟩)
      (hv : s.value.map Event.answer = some (.polled .pending)) :
      Driven settings slices (deeds ++ [⟨l, .turn id, s⟩]) s.state (.writing (slice :: rest) true)
  | wrote {deeds : List Deed} {l : Link} {slice : Slice} {rest : List Slice} {polled : Bool}
      {id : Nat} {waker : Waker} {reply : Reply} {s : Step Link (Option Event)}
      (h : Driven settings slices deeds l (.writing (slice :: rest) polled))
      (hm : l.move (.turn id) = some s)
      (hc : l.call? id = some ⟨.write, .prompt (.pollWrite slice waker)⟩)
      (hv : s.value.map Event.answer = some (.polled (.ready reply))) :
      Driven settings slices (deeds ++ [⟨l, .turn id, s⟩]) s.state (.writing rest false)
  | waits {deeds : List Deed} {l : Link} {script : Script} {id : Nat} {waker : Waker}
      {s : Step Link (Option Event)} (h : Driven settings slices deeds l script)
      (hmay : script.mayClose) (hm : l.move (.turn id) = some s)
      (hc : l.call? id = some ⟨.write, .prompt (.pollClose waker)⟩)
      (hv : s.value.map Event.answer = some (.polled .pending)) :
      Driven settings slices (deeds ++ [⟨l, .turn id, s⟩]) s.state .closing
  | flushes {deeds : List Deed} {l : Link} {script : Script} {id : Nat} {waker : Waker}
      {s : Step Link (Option Event)} (h : Driven settings slices deeds l script)
      (hmay : script.mayClose) (hm : l.move (.turn id) = some s)
      (hc : l.call? id = some ⟨.write, .prompt (.pollClose waker)⟩)
      (hv : s.value.map Event.answer = none) :
      Driven settings slices (deeds ++ [⟨l, .turn id, s⟩]) s.state .flushed
  | closes {deeds : List Deed} {l : Link} {flushed : Except ShortWrite Unit} {id : Nat}
      {s : Step Link (Option Event)} (h : Driven settings slices deeds l .flushed)
      (hm : l.move (.turn id) = some s)
      (hc : l.call? id = some ⟨.write, .prompt (.closeFlushed flushed)⟩) :
      Driven settings slices (deeds ++ [⟨l, .turn id, s⟩]) s.state .closed

theorem Driven.run {settings : Settings} {slices : List Slice} {deeds : List Deed} {l : Link}
    {script : Script} (h : Driven settings slices deeds l script) : Run (.opened settings) deeds l := by
  induction h with
  | start => exact .start
  | aside h hm ha ih => exact ih.next hm
  | again h hm hc hv ih => exact ih.next hm
  | wrote h hm hc hv ih => exact ih.next hm
  | waits h hmay hm hc hv ih => exact ih.next hm
  | flushes h hmay hm hc hv ih => exact ih.next hm
  | closes h hm hc ih => exact ih.next hm

def flat (slices : List Slice) : Bytes :=
  slices.flatMap Slice.bytes

/-- The slices that are done with, and the one whose write is under way. -/
inductive Script.Fits (slices : List Slice) : Script → List Slice → Option Slice → Prop
  | fresh {done todo : List Slice} (h : slices = done ++ todo) :
      Fits slices (.writing todo false) done none
  | polled {done rest : List Slice} {slice : Slice} (h : slices = done ++ slice :: rest) :
      Fits slices (.writing (slice :: rest) true) done (some slice)
  | closing {done : List Slice} {current : Option Slice} (h : slices = done ++ current.toList) :
      Fits slices .closing done current
  | flushed : Fits slices .flushed slices none

theorem Script.Fits.within {slices done : List Slice} {script : Script} {current : Option Slice}
    (h : script.Fits slices done current) : ∃ todo, slices = done ++ current.toList ++ todo := by
  cases h with
  | @fresh _ todo h => exact ⟨todo, by simp [h]⟩
  | @polled _ rest slice h => exact ⟨rest, by simp [h]⟩
  | closing h => exact ⟨[], by simp [h]⟩
  | flushed => exact ⟨[], by simp⟩

theorem Script.Fits.whole {slices done : List Slice} {script : Script} {current : Option Slice}
    (h : script.Fits slices done current) (hs : script.mayClose) : slices = done ++ current.toList := by
  cases h with
  | fresh h =>
    rcases hs with rfl | ⟨hp, -⟩
    · exact h
    · cases hp
  | polled h =>
    rcases hs with hnil | ⟨-, hone⟩
    · cases hnil
    · obtain rfl := List.length_eq_zero_iff.mp (Nat.succ.inj hone)
      exact h
  | closing h => exact h
  | flushed => exact hs.elim

inductive Transit (slices : List Slice) (es : List Effect) (c : Channel) : Script → Prop
  | underway {script : Script} {done : List Slice} {current : Option Slice} {left : Bytes}
      (hf : script.Fits slices done current) (hu : Untouched c.pipe) (hp : Polled c current left)
      (hh : (handed es).flatten ++ left = flat (done ++ current.toList))
      (hput : (placed es).map Prod.snd = (done ++ current.toList).map Slice.bytes) :
      Transit slices es c script
  | closed (hc : c.pipe.closed = true) (hr : c.pipe.reason .read = .endOfStream)
      (hh : (handed es).flatten = flat slices)
      (hput : (placed es).map Prod.snd = slices.map Slice.bytes) : Transit slices es c .closed

@[simp] theorem flat_append (slices more : List Slice) : flat (slices ++ more) = flat slices ++ flat more :=
  List.flatMap_append

namespace Transit

variable {slices : List Slice} {es : List Effect} {c : Channel} {script : Script}

theorem opened (settings : Settings) (slices : List Slice) :
    Transit slices [] settings.opened (.writing slices false) :=
  .underway (.fresh (List.nil_append slices).symm) ⟨rfl, fun half => by cases half <;> rfl⟩
    (.idle rfl rfl rfl) rfl rfl

theorem read (h : Transit slices es c script) {owner : Nat} {call : Call .read}
    (hcl : call.closing = none) {s : Step Channel (Progress (Call .read))}
    (hs : call.advance owner c = some s) : Transit slices (es ++ s.effects) s.state script := by
  have hb := Call.blamed hs
  rw [hcl] at hb
  cases h with
  | underway hf hu hp hh hput =>
    obtain ⟨rest, hp', hh', hput'⟩ := hp.read hu hcl hs
    refine .underway hf (hu.blamed hb) hp' ?_ ?_
    · rw [handed_append, List.flatten_append, List.append_assoc, hh', hh]
    · rw [placed_append, hput', List.append_nil, hput]
  | closed hc hr hh hput =>
    have hfrozen := (Call.section_of_advance hs).frozen hc
    refine .closed hfrozen.closed ?_ ?_ ?_
    · have hown : ∀ half, s.state.pipe.ownReason half = c.pipe.ownReason half :=
        fun half => (hb.own half).trans (Option.or_none)
      rw [Pipe.reason, hown, hown]
      exact hr
    · rw [handed_append, hfrozen.handed, List.append_nil, hh]
    · rw [placed_append, hfrozen.placed, List.append_nil, hput]

theorem pollWrite {slice : Slice} {rest : List Slice} {polled : Bool}
    (h : Transit slices es c (.writing (slice :: rest) polled)) {waker : Waker} {owner : Nat}
    {s : Step Channel (Progress (Call .write))}
    (hs : (Call.prompt (.pollWrite slice waker)).advance owner c = some s) :
    s.value.answer? = some (.polled .pending) ∧ (polled = true → c.pipe.readable = true) ∧
        Transit slices (es ++ s.effects) s.state (.writing (slice :: rest) true) ∨
      s.value.answer? = some (.polled (.ready (.count slice.bytes.length))) ∧
        Transit slices (es ++ s.effects) s.state (.writing rest false) := by
  obtain rfl := Option.some.inj hs
  simp only [Prompt.advance, Step.value_map, Step.state_map, Step.effects_map]
  cases h with
  | @underway _ done current left hf hu hp hh hput =>
    have hu' := hu.blamed (.pollWrite c slice waker)
    cases hf with
    -- The first poll only puts the slice up.
    | fresh hdone =>
      obtain ⟨rfl, hv, hp', hh', hput'⟩ := hp.start hu slice waker
      refine .inl ⟨by rw [hv]; rfl, by simp, .underway (.polled hdone) hu' hp' ?_ ?_⟩
      · rw [List.append_nil, Option.toList_none, List.append_nil] at hh
        rw [handed_append, hh', List.append_nil, hh, flat_append]
        simp [flat]
      · rw [placed_append, List.map_append, hput, hput']
        simp
    | polled hdone =>
      obtain ⟨hh', hput', hcase⟩ := hp.repoll hu waker
      have hhanded : handed (es ++ (c.pollWrite slice waker).effects) = handed es := by
        rw [handed_append, hh', List.append_nil]
      have hplaced : placed (es ++ (c.pollWrite slice waker).effects) = placed es := by
        rw [placed_append, hput', List.append_nil]
      rcases hcase with ⟨hv, hreadable, hp'⟩ | ⟨rfl, hv, hp'⟩
      · refine .inl ⟨by rw [hv]; rfl, fun _ => hreadable, .underway (.polled hdone) hu' hp' ?_ ?_⟩
        · rw [hhanded, hh]
        · rw [hplaced, hput]
      · refine .inr ⟨by rw [hv]; rfl,
          @underway _ _ _ _ (done ++ [slice]) none [] (.fresh ?_) hu' hp' ?_ ?_⟩
        · rw [hdone, List.append_assoc, List.singleton_append]
        · rw [hhanded, hh, Option.toList_none, List.append_nil]
          rfl
        · rw [hplaced, hput, Option.toList_none, List.append_nil]
          rfl

theorem pollClose (h : Transit slices es c script) (hmay : script.mayClose) {waker : Waker}
    {owner : Nat} {s : Step Channel (Progress (Call .write))}
    (hs : (Call.prompt (.pollClose waker)).advance owner c = some s) :
    s.value.answer? = some (.polled .pending) ∧ c.pipe.readable = true ∧
        Transit slices (es ++ s.effects) s.state .closing ∨
      s.value.answer? = none ∧ (handed es).flatten = flat slices ∧
        Transit slices (es ++ s.effects) s.state .flushed := by
  obtain rfl := Option.some.inj hs
  simp only [Prompt.advance, Step.value_map, Step.state_map, Step.effects_map]
  cases h with
  | closed => exact hmay.elim
  | @underway _ done current left hf hu hp hh hput =>
    have hwhole := hf.whole hmay
    have hu' := hu.blamed (.pollFlush c waker)
    obtain ⟨hh', hput', hcase⟩ := hp.flush hu waker
    have hhanded : handed (es ++ (c.pollFlush waker).effects) = handed es := by
      rw [handed_append, hh', List.append_nil]
    have hplaced : placed (es ++ (c.pollFlush waker).effects) = placed es := by
      rw [placed_append, hput', List.append_nil]
    rcases hcase with ⟨hv, hreadable, hp'⟩ | ⟨rfl, hv, hp'⟩
    · refine .inl ⟨by rw [hv]; rfl, hreadable, .underway (.closing hwhole) hu' hp' ?_ ?_⟩
      · rw [hhanded, hh]
      · rw [hplaced, hput]
    · have hall : (handed es).flatten = flat slices := by
        rw [hwhole, ← hh, List.append_nil]
      refine .inr ⟨by rw [hv]; rfl, hall, .underway .flushed hu' hp' ?_ ?_⟩
      · rw [hhanded, hall, Option.toList_none, List.append_nil, List.append_nil]
      · rw [hplaced, hput, ← hwhole, Option.toList_none, List.append_nil]

theorem close (h : Transit slices es c .flushed) {flushed : Except ShortWrite Unit} {owner : Nat}
    {s : Step Channel (Progress (Call .write))}
    (hs : (Call.prompt (.closeFlushed flushed)).advance owner c = some s) :
    Transit slices (es ++ s.effects) s.state .closed := by
  obtain rfl := Option.some.inj hs
  cases h with
  | @underway _ done current left hf hu hp hh hput =>
    cases hf with
    | flushed =>
      cases hp with
      | idle =>
        have hown := (Blamed.close c.pipe .write none).own
        have hhanded := (Channel.Change.close c .write none).handed_eq
        refine .closed rfl ?_ ?_ ?_
        · change (c.pipe.close .write none).state.reason .read = _
          rw [Pipe.reason, hown, hown, hu.own, hu.own]
          rfl
        · change (handed (es ++ (c.pipe.close .write none).effects)).flatten = _
          rw [handed_append, hhanded, List.append_nil]
          simpa using hh
        · change (placed (es ++ (c.pipe.close .write none).effects)).map Prod.snd = _
          rw [placed_append, Pipe.placed_close, List.append_nil]
          simpa using hput

theorem handed_prefix (h : Transit slices es c script) : (handed es).flatten <+: flat slices := by
  cases h with
  | @underway _ done current left hf hu hp hh hput =>
    obtain ⟨todo, hs⟩ := hf.within
    refine ⟨left ++ flat todo, ?_⟩
    rw [hs, flat_append, ← hh, List.append_assoc]
  | closed hc hr hh => rw [hh]

theorem placed_prefix (h : Transit slices es c script) :
    (placed es).map Prod.snd <+: slices.map Slice.bytes := by
  cases h with
  | @underway _ done current left hf hu hp hh hput =>
    obtain ⟨todo, hs⟩ := hf.within
    refine ⟨todo.map Slice.bytes, ?_⟩
    rw [hs, List.map_append, hput]
  | closed hc hr hh hput => rw [hput]

theorem whole (h : Transit slices es c script) (hs : script = .flushed ∨ script = .closed) :
    (handed es).flatten = flat slices := by
  cases h with
  | underway hf hu hp hh =>
    rcases hs with rfl | rfl
    · cases hf with
      | flushed =>
        cases hp with
        | idle => simpa using hh
    · cases hf
  | closed hc hr hh => exact hh

theorem script_of_closed (h : Transit slices es c script) (hc : c.pipe.closed = true) :
    script = .closed := by
  cases h with
  | underway hf hu => cases hu.closed.symm.trans hc
  | closed => rfl

theorem of_closed (h : Transit slices es c .closed) :
    c.pipe.closed = true ∧ c.pipe.reason .read = .endOfStream := by
  cases h with
  | underway hf => cases hf
  | closed hc hr => exact ⟨hc, hr⟩

theorem open_of_flushed (h : Transit slices es c .flushed) : c.pipe.closed = false := by
  cases h with
  | underway hf hu => exact hu.closed

end Transit

theorem Driven.transit {settings : Settings} {slices : List Slice} {deeds : List Deed} {l : Link}
    {script : Script} (h : Driven settings slices deeds l script) :
    Transit slices (effects deeds) l.channel script := by
  induction h with
  | start => exact .opened settings slices
  | aside h hm ha ih =>
    rw [effects_concat]
    rcases ha.step hm with ⟨he, hst⟩ | ⟨owner, r, call, hcl, hr, he, hst⟩
    · rw [he, hst, List.append_nil]
      exact ih
    · rw [he, hst]
      exact ih.read hcl hr
  | again h hm hc hv ih =>
    obtain ⟨r, hr, he, hst, ha⟩ := Link.called_of_turn hm hc
    rw [effects_concat, he, hst]
    rcases ih.pollWrite hr with ⟨-, -, ht⟩ | ⟨hv', -⟩
    · exact ht
    · cases hv.symm.trans (ha.trans hv')
  | wrote h hm hc hv ih =>
    obtain ⟨r, hr, he, hst, ha⟩ := Link.called_of_turn hm hc
    rw [effects_concat, he, hst]
    rcases ih.pollWrite hr with ⟨hv', -⟩ | ⟨-, ht⟩
    · cases hv.symm.trans (ha.trans hv')
    · exact ht
  | waits h hmay hm hc hv ih =>
    obtain ⟨r, hr, he, hst, ha⟩ := Link.called_of_turn hm hc
    rw [effects_concat, he, hst]
    rcases ih.pollClose hmay hr with ⟨-, -, ht⟩ | ⟨hv', -⟩
    · exact ht
    · cases hv.symm.trans (ha.trans hv')
  | flushes h hmay hm hc hv ih =>
    obtain ⟨r, hr, he, hst, ha⟩ := Link.called_of_turn hm hc
    rw [effects_concat, he, hst]
    rcases ih.pollClose hmay hr with ⟨hv', -⟩ | ⟨-, -, ht⟩
    · cases hv.symm.trans (ha.trans hv')
    · exact ht
  | closes h hm hc ih =>
    obtain ⟨r, hr, he, hst, -⟩ := Link.called_of_turn hm hc
    rw [effects_concat, he, hst]
    exact ih.close hr

/-- The next turns after any such run. A poll that has begun its write stays pending only while readers
find something to read. -/
theorem Driven.polled_strings_cross {settings : Settings} {slices : List Slice} {deeds : List Deed}
    {l : Link} {script : Script} (h : Driven settings slices deeds l script) :
    ((handed (effects deeds)).flatten <+: flat slices ∧
      (placed (effects deeds)).map Prod.snd <+: slices.map Slice.bytes) ∧
    (script = .flushed ∨ script = .closed → (handed (effects deeds)).flatten = flat slices) ∧
    (∀ id slice rest polled waker, script = .writing (slice :: rest) polled →
      l.call? id = some ⟨.write, .prompt (.pollWrite slice waker)⟩ →
      l.told? id = some (some (.polled .pending)) ∧ (polled = true → l.channel.pipe.readable = true) ∨
        l.told? id = some (some (.polled (.ready (.count slice.bytes.length))))) ∧
    (∀ id waker, script.mayClose → l.call? id = some ⟨.write, .prompt (.pollClose waker)⟩ →
      l.told? id = some (some (.polled .pending)) ∧ l.channel.pipe.readable = true ∨
        l.told? id = some none ∧ (handed (effects deeds)).flatten = flat slices) ∧
    (∀ id flushed, script = .flushed →
      l.call? id = some ⟨.write, .prompt (.closeFlushed flushed)⟩ →
      l.told? id = some (some (.polled (.ready .done)))) ∧
    ∀ id call room, l.call? id = some ⟨.read, call⟩ → call.streams? = some room → room ≠ 0 →
      ((∃ answer, l.told? id = some (some answer) ∧ answer.ends = true) ↔ script = .closed) := by
  have transit := h.transit
  refine ⟨⟨transit.handed_prefix, transit.placed_prefix⟩, transit.whole, ?_, ?_, ?_, ?_⟩
  · rintro id slice rest polled waker rfl hc
    rw [Link.told?_of_call? hc]
    have hr : (Call.prompt (.pollWrite slice waker)).advance id l.channel = some _ := rfl
    rcases transit.pollWrite hr with ⟨hv, hreadable, -⟩ | ⟨hv, -⟩
    · exact .inl ⟨congrArg some hv, hreadable⟩
    · exact .inr (congrArg some hv)
  · intro id waker hmay hc
    rw [Link.told?_of_call? hc]
    have hr : (Call.prompt (.pollClose waker)).advance id l.channel = some _ := rfl
    rcases transit.pollClose hmay hr with ⟨hv, hreadable, -⟩ | ⟨hv, hall, -⟩
    · exact .inl ⟨congrArg some hv, hreadable⟩
    · exact .inr ⟨congrArg some hv, hall⟩
  · rintro id flushed rfl hc
    have hl : l.Reachable := ⟨settings, deeds, h.run⟩
    -- The pipe was open at the flush, so the flush has not failed.
    have hnone := hl.flushReason? transit.open_of_flushed hc
    rw [Link.told?_of_call? hc]
    cases flushed with
    | ok => rfl
    | error short => cases hnone
  · intro id call room hc hstreams hroom
    rw [Link.told?_of_call? hc]
    constructor
    · rintro ⟨answer, htold, hends⟩
      obtain ⟨r, hr, ha⟩ := Option.map_eq_some_iff.mp htold
      cases hv : r.value with
      | onward next =>
        rw [hv] at ha
        cases ha
      | answered heard =>
        rw [hv] at ha
        obtain rfl := Option.some.inj ha
        exact transit.script_of_closed (Call.ended_of_ends hstreams hroom hr hv hends).1
    · rintro rfl
      obtain ⟨hcl, hr⟩ := transit.of_closed
      obtain ⟨answer, hadv, hends⟩ := Call.ends_of_ended hstreams hcl hr id
      exact ⟨answer, by rw [hadv]; rfl, hends⟩

/-- Two equal slices one after the other, the second left to the close; then the reader meets the end. -/
theorem equal_slices_cross :
    ∃ deeds l, Driven {} [⟨"data", 0, [1]⟩, ⟨"data", 0, [1]⟩] deeds l .closed ∧
      (handed (effects deeds)).flatten = [1, 1] ∧
      ∃ answer, l.told? 2 = some (some answer) ∧ answer.ends = true := by
  have begun := @Driven.start {} [⟨"data", 0, [1]⟩, ⟨"data", 0, [1]⟩]
  have writer := @Driven.aside _ _ _ _ _ (.spawn ⟨1, "writer", .write, .share, 0,
    [.prompt (.pollWrite ⟨"data", 0, [1]⟩ .silent), .prompt (.pollWrite ⟨"data", 0, [1]⟩ .silent),
      .prompt (.pollWrite ⟨"data", 0, [1]⟩ .silent), .prompt (.pollClose .silent),
      .prompt (.pollClose .silent)]⟩) _ begun rfl trivial
  have reader := @Driven.aside _ _ _ _ _ (.spawn ⟨2, "reader", .read, .share, 0,
    [.receive 1, .receive 1, .read 1]⟩) _ writer rfl trivial
  have first := @Driven.again _ _ _ _ _ _ _ 1 .silent _ reader rfl rfl rfl
  have taken := @Driven.aside _ _ _ _ _ (.turn 2) _ first rfl (by
    rintro t ⟨⟩
    exact ⟨rfl, nofun⟩)
  have wrote := @Driven.wrote _ _ _ _ _ _ _ 1 .silent _ _ taken rfl rfl rfl
  have second := @Driven.again _ _ _ _ _ _ _ 1 .silent _ wrote rfl rfl rfl
  have waits := @Driven.waits _ _ _ _ _ 1 .silent _ second (.inr ⟨rfl, rfl⟩) rfl rfl rfl
  have emptied := @Driven.aside _ _ _ _ _ (.turn 2) _ waits rfl (by
    rintro t ⟨⟩
    exact ⟨rfl, nofun⟩)
  have flushed := @Driven.flushes _ _ _ _ _ 1 .silent _ emptied trivial rfl rfl rfl
  have closed := @Driven.closes _ _ _ _ _ 1 _ flushed rfl rfl
  obtain ⟨-, hall, -, -, -, hends⟩ := closed.polled_strings_cross
  refine ⟨_, _, closed, hall (.inr rfl), ?_⟩
  exact (hends 2 (.read 1) 1 rfl rfl (by decide)).mpr rfl

end Handoff
