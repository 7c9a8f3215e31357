import Handoff.Proofs.Places

/-!
Which reads met which writes. The ledger says what readers got of each write; here stands for each take how
much room it had.
-/

namespace Handoff

/-- A write and the takes that have met it, in their order: the room of each and what it got. -/
structure Meeting where
  origin : Origin
  bytes : Bytes
  takes : List (Nat × Bytes) := []

def meet (ms : List Meeting) : Effect → List Meeting
  | .placed origin bytes => { origin, bytes } :: ms
  | .handed room bytes => ms.modifyHead fun m => { m with takes := m.takes ++ [(room, bytes)] }
  | _ => ms

def meetings (es : List Effect) : List Meeting :=
  es.foldl meet []

def Effect.taken? : Effect → Option (Nat × Bytes)
  | handed room bytes => some (room, bytes)
  | _ => none

def takes (es : List Effect) : List (Nat × Bytes) :=
  es.filterMap Effect.taken?

@[simp] theorem takes_append (es fs : List Effect) : takes (es ++ fs) = takes es ++ takes fs :=
  List.filterMap_append

theorem handed_takes (es : List Effect) : (takes es).map Prod.snd = handed es := by
  rw [takes, handed, List.map_filterMap]
  congr
  funext e
  cases e <;> rfl

theorem takes_of_handed {es : List Effect} (h : handed es = []) : takes es = [] := by
  rw [← handed_takes, List.map_eq_nil_iff] at h
  exact h

def Meeting.delivered (m : Meeting) : (Origin × Bytes) × List Bytes :=
  ((m.origin, m.bytes), m.takes.map Prod.snd)

theorem delivered_foldl_meet {ms : List Meeting} {ds : List Delivery}
    (h : ms.map Meeting.delivered = ds.map fun d => (d.offer, d.pieces)) (es : List Effect) :
    (es.foldl meet ms).map Meeting.delivered = (es.foldl record ds).map fun d => (d.offer, d.pieces) := by
  induction es generalizing ms ds with
  | nil => exact h
  | cons e es ih =>
    apply ih
    cases e with
    | placed origin bytes => exact congrArg (((origin, bytes), []) :: ·) h
    | handed room bytes =>
      cases ms with
      | nil =>
        obtain rfl := List.map_eq_nil_iff.mp h.symm
        rfl
      | cons m ms =>
        obtain ⟨d, rest, rfl, hd, hrest⟩ := List.map_eq_cons_iff.mp h.symm
        obtain ⟨ho, hp⟩ := Prod.mk.inj hd
        have hm : Meeting.delivered { m with takes := m.takes ++ [(room, bytes)] } =
            (d.offer, d.pieces ++ [bytes]) := by
          rw [Meeting.delivered, List.map_append, ← hp, ← ho]
          rfl
        exact List.cons_eq_cons.mpr ⟨hm, hrest.symm⟩
    | vacated passed => cases ds <;> exact h
    | announced | woke => exact h
    | logged entry =>
      cases entry with
      | withdrawn => cases ds <;> exact h
      | consumed | closed => exact h

theorem delivered_meetings (es : List Effect) :
    (meetings es).map Meeting.delivered = (ledger es).map fun d => (d.offer, d.pieces) :=
  delivered_foldl_meet rfl es

theorem foldl_meet_of_untaken {es : List Effect} (h : handed es = []) (ms : List Meeting) :
    es.foldl meet ms = ((placed es).map fun o => Meeting.mk o.1 o.2 []).reverse ++ ms := by
  induction es generalizing ms with
  | nil => rfl
  | cons e es ih =>
    cases e with
    | handed => cases h
    | placed origin bytes =>
      have hp : placed (.placed origin bytes :: es) = (origin, bytes) :: placed es := rfl
      rw [List.foldl_cons, ih h, hp, List.map_cons, List.reverse_cons, List.append_assoc]
      rfl
    | vacated | announced | woke | logged => exact ih h ms

/-- The take of a step, if there is one, is of the write in the pipe. -/
theorem Section.taken {owner : Nat} {lent left : Option Bytes} {c d : Channel} {es : List Effect}
    (h : Section owner lent c es d left) :
    handed es = [] ∨ ∃ b room, c.pipe.parcel = some b ∧ b.finished = false ∧
      ∃ more, es = .handed room (b.front room) :: more ∧ handed more = [] ∧ placed more = [] := by
  cases h with
  | @pull _ b room _ hb =>
    obtain ⟨hp, hf⟩ := Pipe.available_eq_some hb
    exact .inr ⟨b, room, hp, hf, _, rfl, Pipe.handed_announce _, Pipe.placed_announce _⟩
  | enter bytes => exact .inl (Pipe.handed_place ..)
  | leave bytes _ he =>
    left
    rw [handed_append, Pipe.handed_vacate, handed_of_consumed he, List.append_nil]
  | other h => exact .inl h.handed_eq

theorem Parcel.Sound.bytes_of_blank {b : Parcel} (h : b.Sound) (hf : b.finished = false) {room : Nat}
    (hr : room ≠ 0) (hb : b.front room = []) : b.bytes = [] := by
  have hrest : b.rest = [] := by simpa [Parcel.front, hr] using hb
  have hmet : b.met = false := by simpa [Parcel.finished, hrest] using hf
  have hpassed : b.passed = 0 := by
    by_contra hne
    cases hmet.symm.trans (h.met_of_passed hne)
  rw [Parcel.rest, hpassed] at hrest
  exact hrest

/-- No second read has met an empty write, for readers have all of it once they have nothing of it. -/
theorem Delivery.Timely.once {d : Delivery} (h : d.Timely) (hr : d.received <+: d.bytes) (hb : d.bytes = []) :
    d.pieces = [] ∨ d.pieces = [[]] := by
  have hnil : d.pieces.flatten = [] := List.prefix_nil.mp (hb ▸ hr)
  cases hp : d.pieces with
  | nil => exact .inl rfl
  | cons first rest =>
    have hfirst : first = [] := List.flatten_eq_nil_iff.mp hnil first (by simp [hp])
    subst hfirst
    cases rest with
    | nil => exact .inr rfl
    | cons second rest => exact absurd hb.symm (h [[]] second rest hp (by simp))

namespace Run

variable {settings : Settings} {deeds : List Deed} {l : Link}

theorem meeting_of_parcel (run : Run (.opened settings) deeds l) {b : Parcel}
    (hb : l.channel.pipe.parcel = some b) :
    ∃ m rest, meetings (effects deeds) = m :: rest ∧ m.origin = b.origin ∧ m.bytes = b.bytes := by
  obtain ⟨d, rest, hled, hold, -⟩ := run.accounts.cons_of_parcel hb
  have hd := delivered_meetings (effects deeds)
  rw [hled] at hd
  obtain ⟨m, ms, hms, hm, -⟩ := List.map_eq_cons_iff.mp hd
  obtain ⟨ho, hbytes⟩ := Prod.mk.inj (Prod.mk.inj hm).1
  exact ⟨m, ms, hms, ho.trans hold.origin, hbytes.trans hold.bytes⟩

theorem meets (run : Run (.opened settings) deeds l) {move : Move} {s : Step Link (Option Event)}
    (h : l.move move = some s) :
    takes s.effects = [] ∧ (∃ fresh : List Meeting, (∀ m ∈ fresh, m.takes = []) ∧
        meetings (effects deeds ++ s.effects) = fresh ++ meetings (effects deeds)) ∨
      ∃ b room m rest, l.channel.pipe.parcel = some b ∧ b.finished = false ∧
        takes s.effects = [(room, b.front room)] ∧ meetings (effects deeds) = m :: rest ∧
        m.origin = b.origin ∧ m.bytes = b.bytes ∧
        meetings (effects deeds ++ s.effects) =
          { m with takes := m.takes ++ [(room, b.front room)] } :: rest := by
  obtain ⟨_, _, _, hsec⟩ := Link.section_of_move h
  rcases hsec.taken with hh | ⟨b, room, hb, hf, more, he, hh, hp⟩
  · refine .inl ⟨takes_of_handed hh, _, ?_, (List.foldl_append ..).trans (foldl_meet_of_untaken hh _)⟩
    intro m hm
    obtain ⟨o, -, rfl⟩ := List.mem_map.mp (List.mem_reverse.mp hm)
    rfl
  · obtain ⟨m, rest, hms, ho, hbytes⟩ := run.meeting_of_parcel hb
    refine .inr ⟨b, room, m, rest, hb, hf, ?_, hms, ho, hbytes, ?_⟩
    · rw [he]
      exact congrArg ((room, b.front room) :: ·) (takes_of_handed hh)
    · have hfold : meetings (effects deeds ++ s.effects) = s.effects.foldl meet (m :: rest) := by
        rw [← hms]
        exact List.foldl_append ..
      rw [hfold, he, List.foldl_cons, foldl_meet_of_untaken hh, hp]
      rfl

theorem takes_meetings (run : Run (.opened settings) deeds l) :
    takes (effects deeds) = (meetings (effects deeds)).reverse.flatMap Meeting.takes := by
  induction run with
  | start => rfl
  | @next deeds _ _ s run h ih =>
    rw [effects_concat, takes_append, ih]
    rcases run.meets h with ⟨ht, fresh, hfresh, hms⟩ | ⟨b, room, m, rest, -, -, ht, hold, -, -, hms⟩
    · have hnone : fresh.reverse.flatMap Meeting.takes = [] := by
        rw [List.flatMap_eq_nil_iff]
        exact fun m hm => hfresh m (List.mem_reverse.mp hm)
      rw [ht, hms, List.append_nil, List.reverse_append, List.flatMap_append, hnone, List.append_nil]
    · rw [ht, hms, hold]
      simp

theorem bytes_of_blank (run : Run (.opened settings) deeds l) :
    ∀ m ∈ meetings (effects deeds), ∀ room, (room, []) ∈ m.takes → room ≠ 0 → m.bytes = [] := by
  induction run with
  | start => simp [effects, meetings]
  | @next deeds l _ s run h ih =>
    rw [effects_concat]
    rcases run.meets h with ⟨-, fresh, hfresh, hms⟩ | ⟨b, room, m, rest, hb, hf, -, hold, -, hbytes, hms⟩
    · rw [hms]
      intro m hm room hroom
      rcases List.mem_append.mp hm with hm | hm
      · simp [hfresh m hm] at hroom
      · exact ih m hm room hroom
    · rw [hold] at ih
      obtain ⟨ihm, ihrest⟩ := List.forall_mem_cons.mp ih
      rw [hms]
      refine List.forall_mem_cons.mpr ⟨?_, ihrest⟩
      intro other hother hr
      rcases List.mem_append.mp hother with hother | hother
      · exact ihm other hother hr
      · obtain ⟨rfl, hfront⟩ := Prod.mk.inj (List.mem_singleton.mp hother)
        have hs : b.Sound := (Link.Reachable.sound ⟨settings, deeds, run⟩).parcel b hb
        exact hbytes.trans (hs.bytes_of_blank hf hr hfront.symm)

theorem mem_ledger_of_meeting {m : Meeting} (hm : m ∈ meetings (effects deeds)) :
    ∃ d ∈ ledger (effects deeds), d.bytes = m.bytes ∧ d.pieces = m.takes.map Prod.snd := by
  have h := List.mem_map_of_mem (f := Meeting.delivered) hm
  rw [delivered_meetings] at h
  obtain ⟨d, hd, he⟩ := List.mem_map.mp h
  obtain ⟨ho, hp⟩ := Prod.mk.inj he
  exact ⟨d, hd, (Prod.mk.inj ho).2, hp⟩

theorem once (run : Run (.opened settings) deeds l) {m : Meeting} (hm : m ∈ meetings (effects deeds))
    (hb : m.bytes = []) : m.takes = [] ∨ ∃ room, m.takes = [(room, [])] := by
  obtain ⟨d, hd, hbytes, hpieces⟩ := mem_ledger_of_meeting hm
  have hpiece := (run.timely d hd).once (run.accounts.received hd) (hbytes.trans hb)
  rw [hpieces] at hpiece
  rcases hpiece with hn | hs
  · exact .inl (List.map_eq_nil_iff.mp hn)
  · obtain ⟨⟨room, got⟩, ht, rfl⟩ := List.map_eq_singleton_iff.mp hs
    exact .inr ⟨room, ht⟩

end Run

end Handoff
