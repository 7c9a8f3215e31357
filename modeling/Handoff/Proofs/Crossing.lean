import Handoff.Proofs.Blocked
import Handoff.Proofs.Closes
import Handoff.Proofs.Confluence

/-!
Strings on their way from a writer that makes one blocking write of each and then closes to a reader that
reads on to the end. Each string comes out in pieces that fill the reader's room, but for its last.
-/

namespace Handoff

/-- The pieces in which bytes come out if no read has more room than this. -/
def pieces (room : Nat) (bytes : Bytes) : List Bytes :=
  if _h : room = 0 ∨ bytes = [] then [] else bytes.take room :: pieces room (bytes.drop room)
termination_by bytes.length
decreasing_by
  have hpos := List.length_pos_iff.mpr fun hb => _h (.inr hb)
  rw [List.length_drop]
  omega

@[simp] theorem pieces_nil (room : Nat) : pieces room [] = [] := by
  unfold pieces
  exact dif_pos (.inr rfl)

theorem pieces_of_ne_nil {room : Nat} (hr : room ≠ 0) {bytes : Bytes} (hb : bytes ≠ []) :
    pieces room bytes = bytes.take room :: pieces room (bytes.drop room) := by
  rw [pieces]
  exact dif_neg (not_or.mpr ⟨hr, hb⟩)

theorem flatten_pieces {room : Nat} (hr : room ≠ 0) (bytes : Bytes) :
    (pieces room bytes).flatten = bytes := by
  by_cases hb : bytes = []
  · rw [hb, pieces_nil, List.flatten_nil]
  · have hpos := List.length_pos_iff.mpr hb
    have hlt : (bytes.drop room).length < bytes.length := by
      rw [List.length_drop]
      omega
    rw [pieces_of_ne_nil hr hb, List.flatten_cons, flatten_pieces hr, List.take_append_drop]
termination_by bytes.length

theorem length_pieces {room : Nat} (hr : room ≠ 0) (bytes : Bytes) :
    (pieces room bytes).map List.length = List.replicate (bytes.length / room) room ++
      if bytes.length % room = 0 then [] else [bytes.length % room] := by
  by_cases hb : bytes = []
  · simp [hb]
  · have hpos := List.length_pos_iff.mpr hb
    have hlt : (bytes.drop room).length < bytes.length := by
      rw [List.length_drop]
      omega
    rw [pieces_of_ne_nil hr hb, List.map_cons, length_pieces hr, List.length_drop, List.length_take]
    by_cases hle : room ≤ bytes.length
    · rw [Nat.min_eq_left hle, ← Nat.mod_eq_sub_mod hle,
        Nat.div_eq_sub_div (Nat.pos_of_ne_zero hr) hle, List.replicate_succ, List.cons_append]
    · have hlt := Nat.lt_of_not_le hle
      have hzero : bytes.length - room = 0 := by omega
      rw [Nat.min_eq_right (Nat.le_of_lt hlt), hzero, Nat.div_eq_of_lt hlt, Nat.mod_eq_of_lt hlt]
      simp [hb]
termination_by bytes.length

/-- All bytes of the strings put up so far have come out, and in these chunks. -/
structure Between (room : Nat) (done chunks : List Bytes) (p : Pipe) : Prop extends Untouched p where
  vacant : p.occupied = false
  parcel : p.parcel = none
  came : chunks.reverse = done.flatMap (pieces room)

/-- A string is coming out. -/
structure Within (room owner : Nat) (done : List Bytes) (bytes : Bytes) (chunks : List Bytes)
    (b : Parcel) (p : Pipe) : Prop extends Untouched p where
  parcel : p.parcel = some b
  origin : b.origin = .lent owner
  whole : b.bytes = bytes
  fits : b.passed ≤ b.bytes.length
  came : chunks.reverse ++ pieces room b.rest = (done ++ [bytes]).flatMap (pieces room)

/-- After the last string the writer's close has kept its reason, and only the writer's. -/
structure Ending (room : Nat) (strings chunks : List Bytes) (p : Pipe) : Prop where
  reader : p.ownReason .read = none
  writer : p.ownReason .write = some .endOfStream
  came : chunks.reverse = strings.flatMap (pieces room)

theorem Between.keep {room : Nat} {strings chunks : List Bytes} {p : Pipe}
    (h : Between room strings chunks p) :
    Ending room strings chunks (p.keepReason .write .endOfStream) where
  reader := by rw [Pipe.ownReason_keepReason, if_neg (by decide), h.own]
  writer := by rw [Pipe.ownReason_keepReason, if_pos rfl, h.own]; rfl
  came := h.came

theorem Ending.shut {room : Nat} {strings chunks : List Bytes} {p : Pipe}
    (h : Ending room strings chunks p) : Ending room strings chunks (p.shut .write).state :=
  ⟨h.reader, h.writer, h.came⟩

theorem Ending.close {room : Nat} {strings chunks : List Bytes} {p : Pipe}
    (h : Ending room strings chunks p) : Ending room strings chunks (p.close .write none).state where
  reader := by rw [(Blamed.close p .write none).own, h.reader]; rfl
  writer := by rw [(Blamed.close p .write none).own, h.writer]; rfl
  came := h.came

section

variable {room owner : Nat} {done chunks : List Bytes} {bytes : Bytes} {b : Parcel} {c : Channel}

theorem Between.enter (h : Between room done chunks c.pipe) (owner : Nat) (bytes : Bytes) :
    ∃ s b, (Call.write bytes false).advance owner c = some s ∧
      s.value = .onward (.write bytes true) ∧ s.state.nonblocking = c.nonblocking ∧
      Within room owner done bytes chunks b s.state.pipe := by
  have henter : c.pipe.enter owner bytes = some ((c.pipe.place (.lent owner) bytes).map .ok) := by
    rw [Pipe.enter, if_neg (by simp [h.closed]), if_neg (by simp [h.vacant])]
  refine ⟨_, .fresh (.lent owner) bytes, by rw [Call.advance, henter]; rfl, rfl, rfl, ?_⟩
  refine ⟨h.toUntouched.blamed (.place c.pipe (.lent owner) bytes), rfl, rfl, rfl, Nat.zero_le _, ?_⟩
  have hrest : (Parcel.fresh (.lent owner) bytes).rest = bytes := rfl
  rw [hrest, h.came, List.flatMap_append, List.flatMap_singleton]

theorem Between.unreadable {p : Pipe} (h : Between room done chunks p) : p.readable = false := by
  simp [Pipe.readable, Pipe.available, h.closed, h.parcel]

theorem Within.leave (h : Within room owner done bytes chunks b c.pipe) (hf : b.finished = true) :
    ∃ s, (Call.write bytes true).advance owner c = some s ∧
      s.value = .reply (.count bytes.length) ∧ s.state.nonblocking = c.nonblocking ∧
      Between room (done ++ [bytes]) chunks s.state.pipe := by
  have hrest : b.rest = [] := by
    simp only [Parcel.finished, Bool.and_eq_true, List.isEmpty_iff] at hf
    exact hf.2
  have hpassed : b.passed = bytes.length := by
    have hle := h.fits
    rw [Parcel.rest, List.drop_eq_nil_iff] at hrest
    rw [← h.whole]
    omega
  have hcons : c.pipe.consumed = true := by simp [Pipe.consumed, h.parcel, hf]
  have hval : c.pipe.vacate.value = bytes.length := by simp [Pipe.vacate, h.parcel, hpassed]
  have hleave : c.pipe.leave = some ((c.pipe.vacate.map .ok).andThen
      [.logged (.consumed c.pipe.vacate.value)]) := if_pos hcons
  refine ⟨_, by rw [Call.advance, hleave]; rfl, ?_, rfl, ?_⟩
  · simp only [Channel.value_lift, Step.value_map, Step.value_andThen, hval]
    rfl
  · refine ⟨h.toUntouched.blamed (.vacate c.pipe), rfl, rfl, ?_⟩
    rw [← h.came, hrest, pieces_nil, List.append_nil]

theorem Within.leave_waits (h : Within room owner done bytes chunks b c.pipe)
    (hf : b.finished = false) : (Call.write bytes true).advance owner c = none := by
  rw [Call.advance_eq_none_iff, Call.awaits]
  simp [Pipe.leavable, Pipe.consumed, h.parcel, hf, h.closed]

theorem Within.unreadable {p : Pipe} (h : Within room owner done bytes chunks b p)
    (hf : b.finished = true) : p.readable = false := by
  simp [Pipe.readable, Pipe.available, h.closed, h.parcel, hf]

theorem Within.take (h : Within room owner done bytes chunks b c.pipe) (hr : room ≠ 0)
    (hf : b.finished = false) (reader : Nat) :
    ∃ s taken rest, (Call.drain room chunks).advance reader c = some s ∧
      s.value = .onward (.drain room taken) ∧ s.state.nonblocking = c.nonblocking ∧
      Within room owner done bytes taken rest s.state.pipe := by
  have ha : c.pipe.available = some b := by simp [Pipe.available, h.parcel, hf]
  have hpull := Pipe.pull_of_available h.closed ha room
  have hlook : c.look room =
      some (c.lift ((c.pipe.pull room).map fun _ => .ofPull room (.ok (b.front room)))) := by
    unfold Channel.look
    rw [hpull]
    rfl
  -- A lent parcel stays in the pipe until its writer has seen its end.
  have hpipe : (c.pipe.pull room).state.parcel = some (b.advance room) := by
    rw [hpull, Pipe.advance_of_lent _ h.origin]
    rfl
  have hclose := h.toUntouched.blamed (.pull c.pipe room)
  have hfits : (b.advance room).passed ≤ (b.advance room).bytes.length := by
    have hle := h.fits
    simp only [Parcel.advance, Parcel.front, Parcel.rest, List.length_take, List.length_drop]
    omega
  by_cases hrest : b.rest = []
  · have hfront : b.front room = [] := by rw [Parcel.front, hrest, List.take_nil]
    refine ⟨_, chunks, b.advance room, by rw [Call.advance, hlook]; rfl, ?_, rfl, ?_⟩
    · simp [hfront, Channel.Look.ofPull, hr]
    · refine ⟨hclose, hpipe, h.origin, h.whole, hfits, ?_⟩
      rw [← h.came, Parcel.rest_advance, hrest, List.drop_nil]
  · have hne : b.front room ≠ [] := by
      rw [Parcel.front, Ne, List.take_eq_nil_iff]
      exact not_or.mpr ⟨hr, hrest⟩
    obtain ⟨first, others, hfront⟩ := List.exists_cons_of_ne_nil hne
    refine ⟨_, b.front room :: chunks, b.advance room, by rw [Call.advance, hlook]; rfl, ?_, rfl, ?_⟩
    · simp only [hfront]
      rfl
    · refine ⟨hclose, hpipe, h.origin, h.whole, hfits, ?_⟩
      rw [← h.came, Parcel.rest_advance, pieces_of_ne_nil hr hrest]
      simp [Parcel.front]

theorem Ending.ends {strings : List Bytes} (h : Ending room strings chunks c.pipe)
    (hc : c.pipe.closed = true) (reader : Nat) : (Call.drain room chunks).advance reader c =
      some (.quiet (.reply (.drained (strings.flatMap (pieces room)) none)) c) := by
  have hreason : c.pipe.reason .read = .endOfStream := by
    rw [Pipe.reason, h.reader, Option.none_or, Half.other, h.writer]
    rfl
  rw [Call.advance, Channel.look_of_closed hc, hreason, ← h.came]
  rfl

end

structure Thread.At {half : Half} (t : Thread half) (calls : List (Call half)) (stage : Stage)
    (told : List Answer) : Prop where
  calls : t.calls = calls
  stage : t.stage = stage
  told : t.told = told

def writes (strings : List Bytes) : List (Call .write) :=
  strings.map (.write · false) ++ [.prompt (.close none)]

def counted (strings : List Bytes) : List Answer :=
  strings.map fun bytes => .reply (.count bytes.length)

structure Duo.Reads (d : Duo) (calls : List (Call .read)) (told : List Answer) : Prop where
  waits : d.channel.nonblocking = false
  reader : d.reader.At calls .fresh told

inductive Crossing (room : Nat) (strings : List Bytes) (d : Duo) : Prop
  | between {done todo chunks : List Bytes} (hs : strings = done ++ todo)
      (hp : Between room done chunks d.channel.pipe)
      (hw : d.writer.At (writes todo) .fresh (counted done)) (hr : d.Reads [.drain room chunks] [])
  | within {done todo chunks : List Bytes} {bytes : Bytes} {b : Parcel}
      (hs : strings = done ++ bytes :: todo)
      (hp : Within room d.writer.id done bytes chunks b d.channel.pipe)
      (hw : d.writer.At (.write bytes true :: writes todo) .fresh (counted done))
      (hr : d.Reads [.drain room chunks] [])
  | kept {chunks : List Bytes} (hc : d.channel.pipe.readable = false)
      (hp : Ending room strings chunks d.channel.pipe)
      (hw : d.writer.At (writes []) .kept (counted strings)) (hr : d.Reads [.drain room chunks] [])
  | shut {chunks : List Bytes} (hc : d.channel.pipe.closed = true)
      (hp : Ending room strings chunks d.channel.pipe)
      (hw : d.writer.At (writes []) .shut (counted strings) ∨
        d.writer.At [] .fresh (counted strings ++ [.reply .done]))
      (hr : d.Reads [.drain room chunks] [] ∨
        d.Reads [] [.reply (.drained (strings.flatMap (pieces room)) none)])

theorem Thread.advance_of_open {half : Half} {t : Thread half} {call : Call half}
    {rest : List (Call half)} (hc : t.calls = call :: rest) (hcl : call.closing = none) (c : Channel) :
    t.advance c = (call.advance t.id c).map fun s => (s.state, t.proceed rest s.value) := by
  simp only [advance, hc, hcl]

theorem Call.drain_waits {c : Channel} (hn : c.nonblocking = false) (hr : c.pipe.readable = false)
    (owner room : Nat) (chunks : List Bytes) : (Call.drain room chunks).advance owner c = none := by
  rw [advance_eq_none_iff, awaits, hn, hr]
  rfl

namespace Crossing

variable {room : Nat} {strings : List Bytes} {d e : Duo}

theorem opened (room : Nat) (strings : List Bytes) (writer reader : Nat) :
    Crossing room strings (.opened {} (writer, writes strings) (reader, [.drain room []])) :=
  .between (List.nil_append strings).symm ⟨⟨rfl, fun half => by cases half <;> rfl⟩, rfl, rfl, rfl⟩
    ⟨rfl, rfl, rfl⟩ ⟨rfl, rfl, rfl, rfl⟩

theorem write (h : Crossing room strings d) (he : d.advance .write = some e) :
    Crossing room strings e := by
  obtain ⟨⟨c, w⟩, hadv, rfl⟩ := Option.map_eq_some_iff.mp he
  cases h with
  | @between done todo chunks hs hp hw hr =>
    cases todo with
    -- Nothing is left to write, so this is the first step of the close.
    | nil =>
      rw [List.append_nil] at hs
      subst hs
      simp only [Thread.advance, hw.calls, hw.stage, writes] at hadv
      obtain ⟨rfl, rfl⟩ := Prod.mk.inj (Option.some.inj hadv)
      exact .kept hp.unreadable hp.keep ⟨rfl, rfl, hw.told⟩ ⟨hr.waits, hr.reader⟩
    | cons bytes todo =>
      obtain ⟨s, b, hs', hv, hn, hwithin⟩ := hp.enter d.writer.id bytes
      rw [Thread.advance_of_open hw.calls rfl, hs'] at hadv
      obtain ⟨rfl, rfl⟩ := Prod.mk.inj (Option.some.inj hadv)
      rw [hv]
      exact .within hs hwithin ⟨rfl, rfl, hw.told⟩ ⟨hn.trans hr.waits, hr.reader⟩
  | @within done todo chunks bytes b hs hp hw hr =>
    rw [Thread.advance_of_open hw.calls rfl] at hadv
    cases hf : b.finished with
    | false =>
      rw [hp.leave_waits hf] at hadv
      cases hadv
    | true =>
      obtain ⟨s, hs', hv, hn, hbetween⟩ := hp.leave hf
      rw [hs'] at hadv
      obtain ⟨rfl, rfl⟩ := Prod.mk.inj (Option.some.inj hadv)
      rw [hv]
      refine .between (by simpa using hs) hbetween ⟨rfl, rfl, ?_⟩ ⟨hn.trans hr.waits, hr.reader⟩
      simp [Thread.proceed, Progress.reply, hw.told, counted]
  | @kept chunks hc hp hw hr =>
    simp only [Thread.advance, hw.calls, hw.stage, writes] at hadv
    obtain ⟨rfl, rfl⟩ := Prod.mk.inj (Option.some.inj hadv)
    exact .shut rfl hp.shut (.inl ⟨rfl, rfl, hw.told⟩) (.inl ⟨hr.waits, hr.reader⟩)
  | @shut chunks hc hp hw hr =>
    rcases hw with hw | hw
    · simp only [Thread.advance, hw.calls, hw.stage, writes] at hadv
      obtain ⟨rfl, rfl⟩ := Prod.mk.inj (Option.some.inj hadv)
      refine .shut rfl hp.close (.inr ⟨rfl, rfl, ?_⟩) ?_
      · exact congrArg (· ++ [Answer.reply .done]) hw.told
      · exact hr.imp (fun hr => ⟨hr.waits, hr.reader⟩) fun hr => ⟨hr.waits, hr.reader⟩
    · simp only [Thread.advance, hw.calls] at hadv
      cases hadv

theorem read (hroom : room ≠ 0) (h : Crossing room strings d) (he : d.advance .read = some e) :
    Crossing room strings e := by
  obtain ⟨⟨c, r⟩, hadv, rfl⟩ := Option.map_eq_some_iff.mp he
  cases h with
  | @between done todo chunks hs hp hw hr =>
    rw [Thread.advance_of_open hr.reader.calls rfl, Call.drain_waits hr.waits hp.unreadable] at hadv
    cases hadv
  | @within done todo chunks bytes b hs hp hw hr =>
    rw [Thread.advance_of_open hr.reader.calls rfl] at hadv
    cases hf : b.finished with
    | true =>
      rw [Call.drain_waits hr.waits (hp.unreadable hf)] at hadv
      cases hadv
    | false =>
      obtain ⟨s, taken, rest, hs', hv, hn, hwithin⟩ := hp.take hroom hf d.reader.id
      rw [hs'] at hadv
      obtain ⟨rfl, rfl⟩ := Prod.mk.inj (Option.some.inj hadv)
      rw [hv]
      exact .within hs hwithin hw ⟨hn.trans hr.waits, rfl, rfl, hr.reader.told⟩
  | @kept chunks hc hp hw hr =>
    rw [Thread.advance_of_open hr.reader.calls rfl, Call.drain_waits hr.waits hc] at hadv
    cases hadv
  | @shut chunks hc hp hw hr =>
    rcases hr with hr | hr
    · rw [Thread.advance_of_open hr.reader.calls rfl, hp.ends hc] at hadv
      obtain ⟨rfl, rfl⟩ := Prod.mk.inj (Option.some.inj hadv)
      refine .shut hc hp hw (.inr ⟨hr.waits, rfl, rfl, ?_⟩)
      exact congrArg (· ++ [_]) hr.reader.told
    · simp only [Thread.advance, hr.reader.calls] at hadv
      cases hadv

theorem play (hroom : room ≠ 0) (h : Crossing room strings d) {schedule : List Half}
    (he : d.play schedule = some e) : Crossing room strings e := by
  induction schedule generalizing d with
  | nil =>
    obtain rfl := Option.some.inj he
    exact h
  | cons half rest ih =>
    obtain ⟨a, ha, hr⟩ := Option.bind_eq_some_iff.mp he
    cases half with
    | write => exact ih (h.write ha) hr
    | read => exact ih (h.read hroom ha) hr

theorem finished (hroom : room ≠ 0) (h : Crossing room strings d) (hs : d.Stuck) :
    d.writer.At [] .fresh (counted strings ++ [.reply .done]) ∧
      d.reader.At [] .fresh [.reply (.drained (strings.flatMap (pieces room)) none)] := by
  have hwrite := hs .write
  have hread := hs .read
  simp only [Duo.advance, Option.map_eq_none_iff] at hwrite hread
  cases h with
  | @between done todo chunks hs hp hw hr =>
    cases todo with
    | nil =>
      simp only [Thread.advance, hw.calls, hw.stage, writes] at hwrite
      cases hwrite
    | cons bytes todo =>
      obtain ⟨s, -, hs', -⟩ := hp.enter d.writer.id bytes
      rw [Thread.advance_of_open hw.calls rfl, hs'] at hwrite
      cases hwrite
  | @within done todo chunks bytes b hs hp hw hr =>
    cases hf : b.finished with
    | true =>
      obtain ⟨s, hs', -⟩ := hp.leave hf
      rw [Thread.advance_of_open hw.calls rfl, hs'] at hwrite
      cases hwrite
    | false =>
      obtain ⟨s, -, -, hs', -⟩ := hp.take hroom hf d.reader.id
      rw [Thread.advance_of_open hr.reader.calls rfl, hs'] at hread
      cases hread
  | @kept chunks hc hp hw hr =>
    simp only [Thread.advance, hw.calls, hw.stage, writes] at hwrite
    cases hwrite
  | @shut chunks hc hp hw hr =>
    rcases hw with hw | hw
    · simp only [Thread.advance, hw.calls, hw.stage, writes] at hwrite
      cases hwrite
    · rcases hr with hr | hr
      · rw [Thread.advance_of_open hr.reader.calls rfl, hp.ends hc] at hread
        cases hread
      · exact ⟨hw, hr.reader⟩

end Crossing

end Handoff
