import Handoff.Proofs.Stream

/-!
The polled write that a writer has on record. It is the latest one that has been put up, and nobody
has taken it out.
-/

namespace Handoff

structure Delivery.Awaited (d : Delivery) (write : Outstanding) : Prop where
  origin : d.origin = .copied write.stamp
  bytes : d.bytes = write.slice.bytes
  standing : d.cancelled = false
  present : d.vacated = none

/-- Only blocking writes have come after the one on record. -/
inductive Latest (write : Outstanding) : List Delivery → Prop
  | here {d : Delivery} {ds : List Delivery} (h : d.Awaited write) : Latest write (d :: ds)
  | past {d : Delivery} {ds : List Delivery} (owner : Nat) (h : d.origin = .lent owner)
      (t : Latest write ds) : Latest write (d :: ds)

namespace Latest

variable {write : Outstanding} {ds : List Delivery}

theorem hand (h : Latest write ds) (room : Nat) (bytes : Bytes) :
    Latest write (record ds (.handed room bytes)) := by
  cases h with
  | here h => exact .here ⟨h.origin, h.bytes, h.standing, h.present⟩
  | past owner h t => exact .past owner h t

theorem vacate {d : Delivery} {rest : List Delivery} (h : Latest write (d :: rest)) {owner : Nat}
    (ho : d.origin = .lent owner) (passed : Nat) :
    Latest write (record (d :: rest) (.vacated passed)) := by
  cases h with
  | here h => simp [h.origin] at ho
  | past _ _ t => exact .past owner ho t

theorem awaited {newer older : List Delivery} {d : Delivery} {stamp : UInt64}
    (h : Latest write (newer ++ d :: older)) (hn : ∀ e ∈ newer, ∃ owner, e.origin = .lent owner)
    (hd : d.origin = .copied stamp) : d.Awaited write := by
  induction newer with
  | nil =>
    cases h with
    | here h => exact h
    | past owner h => simp [hd] at h
  | cons e newer ih =>
    cases h with
    | here h =>
      obtain ⟨owner, he⟩ := hn e List.mem_cons_self
      simp [h.origin] at he
    | past _ _ t => exact ih t fun e he => hn e (List.mem_cons_of_mem _ he)

end Latest

def Recorded (ds : List Delivery) (c : Channel) : Prop :=
  ∀ write, c.outstanding = some write → Latest write ds

theorem Channel.Change.recorded {c d : Channel} {es : List Effect} {ds : List Delivery}
    (h : c.Change es d) (hr : Recorded ds c) : Recorded (es.foldl record ds) d := by
  cases h with
  | mode | await | watch => exact hr
  | close half reason =>
    intro write hw
    rw [Pipe.effects_close, List.foldl_append, foldl_record_announce]
    split <;> exact hr write hw
  | conclude | fail | forsake | withdraw =>
    intro write hw
    simp at hw
  | stage slice =>
    intro write hw
    obtain rfl := Option.some.inj hw
    have he : (c.pipe.placeCopy slice.bytes).effects.foldl record ds =
        { origin := .copied c.pipe.nextStamp, bytes := slice.bytes } :: ds :=
      foldl_record_announce _ _
    rw [he]
    exact .here ⟨rfl, rfl, rfl, rfl⟩

theorem Channel.Changes.recorded {c d : Channel} {es : List Effect} {ds : List Delivery}
    (h : c.Changes es d) (hr : Recorded ds c) : Recorded (es.foldl record ds) d := by
  induction h generalizing ds with
  | nil => exact hr
  | cons h _ ih =>
    rw [List.foldl_append]
    exact ih (h.recorded hr)

theorem Section.recorded {owner : Nat} {lent left : Option Bytes} {c d : Channel} {es : List Effect}
    {ds : List Delivery} (h : Section owner lent c es d left)
    (hl : lent ≠ none → ∃ bytes, c.pipe.loan = some (owner, bytes)) (ha : Accounts ds c.pipe)
    (hr : Recorded ds c) : Recorded (es.foldl record ds) d := by
  cases h with
  | pull room _ hb =>
    intro write hw
    rw [List.foldl_cons, foldl_record_announce]
    exact (hr write hw).hand room _
  | enter bytes =>
    intro write hw
    have he : (c.pipe.place (.lent owner) bytes).effects.foldl record ds =
        { origin := .lent owner, bytes } :: ds := foldl_record_announce _ _
    rw [he]
    exact .past owner rfl (hr write hw)
  | leave bytes _ he =>
    -- What a blocking write takes out is its own.
    obtain ⟨lent, hloan⟩ := hl (by simp)
    obtain ⟨b, hb, ho, -⟩ := Pipe.loan_eq_some.mp hloan
    obtain ⟨d, rest, rfl, hd, -⟩ := ha.cons_of_parcel hb
    intro write hw
    have hv : c.pipe.vacate.effects.foldl record (d :: rest) =
        record (d :: rest) (.vacated ((c.pipe.parcel.map Parcel.passed).getD 0)) :=
      foldl_record_announce _ _
    rw [List.foldl_append, foldl_record_log he, hv]
    exact (hr write hw).vacate (hd.origin.trans ho) _
  | other h => exact h.recorded hr

theorem Run.recorded {settings : Settings} {deeds : List Deed} {l : Link}
    (run : Run (.opened settings) deeds l) : Recorded (ledger (effects deeds)) l.channel := by
  induction run with
  | start =>
    intro write hw
    simp [Link.opened, Settings.opened] at hw
  | @next _ m _ _ run h ih =>
    have hr : m.Reachable := ⟨settings, _, run⟩
    obtain ⟨owner, lent, left, hsec, -, hown⟩ := hr.section h
    rw [effects_concat, ledger_append]
    apply hsec.recorded _ run.accounts ih
    intro hl
    obtain ⟨bytes, hb⟩ := Option.ne_none_iff_exists'.mp hl
    exact ⟨bytes, (hown bytes hb).2.1⟩

end Handoff
