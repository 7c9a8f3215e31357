import Handoff.Proofs.Loan

/-!
Who has lent the bytes in the pipe: the one task that is inside a blocking write of just these bytes.
-/

namespace Handoff

theorem Call.lending_of_unstarted {half : Half} {call : Call half} (h : call.unstarted = true) :
    call.lending = none := by
  cases call with
  | send bytes placed | write bytes placed => cases placed <;> simp_all [unstarted, lending]
  | _ => rfl

theorem Call.answered_of_lending {half : Half} {owner : Nat} {call : Call half} {c : Channel}
    {s : Step Channel (Progress (Call half))} {bytes : Bytes} (h : call.advance owner c = some s)
    (hl : call.lending = some bytes) : ∃ answer, s.value = .answered answer := by
  cases call with
  | send bytes placed | write bytes placed =>
    cases placed with
    | false => simp [lending] at hl
    | true =>
      obtain ⟨r, -, rfl⟩ := Option.map_eq_some_iff.mp h
      exact ⟨_, rfl⟩
  | _ => simp [lending] at hl

namespace Task

def lending (t : Task) : Option Bytes :=
  t.calls.head?.bind Call.lending

theorem lending_cons {t : Task} {call : Call t.half} {rest : List (Call t.half)}
    (h : t.calls = call :: rest) : t.lending = call.lending := by
  rw [lending, h]
  rfl

theorem lending_nil {t : Task} (h : t.calls = []) : t.lending = none := by
  rw [lending, h]
  rfl

theorem lending_of_unstarted {t : Task} (h : ∀ call ∈ t.calls, call.unstarted = true) :
    t.lending = none := by
  rw [lending, Option.bind_eq_none_iff]
  intro call hc
  exact Call.lending_of_unstarted (h call (List.mem_of_head? hc))

theorem lending_proceed (t : Task) {rest : List (Call t.half)}
    (hq : ∀ call ∈ rest, call.unstarted = true) (p : Progress (Call t.half)) :
    (t.proceed rest p).lending = p.lending := by
  cases p with
  | onward call => rfl
  | answered answer => exact lending_of_unstarted hq

end Task

namespace Link

structure Custody (l : Link) : Prop where
  lent : ∀ t ∈ l.tasks, ∀ bytes, t.lending = some bytes → l.channel.pipe.loan = some (t.id, bytes)
  lender : ∀ owner bytes, l.channel.pipe.loan = some (owner, bytes) →
    ∃ t ∈ l.tasks, t.id = owner ∧ t.lending = some bytes

theorem Orderly.other {l : Link} (h : l.Orderly) {before after : List Task} {t u : Task}
    (ht : l.tasks = before ++ t :: after) (hu : u ∈ before ++ after) : u ∈ l.tasks ∧ u.id ≠ t.id := by
  have hi := h.ids
  simp only [ht, List.map_append, List.map_cons, List.nodup_append, List.nodup_cons] at hi
  rw [ht, List.mem_append, List.mem_cons]
  rcases List.mem_append.mp hu with hu | hu
  · exact ⟨.inl hu, hi.2.2 _ (List.mem_map_of_mem hu) _ List.mem_cons_self⟩
  · refine ⟨.inr (.inr hu), ?_⟩
    intro he
    apply hi.2.1.1
    rw [← he]
    exact List.mem_map_of_mem hu

theorem Custody.section {l m : Link} (h : l.Custody) (ho : l.Orderly) (hs : l.channel.pipe.Sound)
    {before after : List Task} {t u : Task} {es : List Effect}
    (ht : l.tasks = before ++ t :: after) (hm : m.tasks = before ++ u :: after) (hi : u.id = t.id)
    (hsec : Section t.id t.lending l.channel es m.channel u.lending) : m.Custody := by
  have hmem : ∀ v, v ∈ m.tasks ↔ v = u ∨ v ∈ before ++ after := by
    intro v
    simp only [hm, List.mem_append, List.mem_cons]
    tauto
  have htl : t ∈ l.tasks := by simp [ht]
  rcases hsec.loan hs with
    ⟨hlent, hleft, heq⟩ | ⟨bytes, -, hleft, hnone, hsome⟩ | ⟨bytes, hlent, hleft, hnone⟩
  -- `t` lends nothing before or after, so whoever lends is one of the others.
  · constructor
    · intro v hv bytes hb
      rcases (hmem v).mp hv with rfl | hv
      · simp [hleft] at hb
      · rw [heq]
        exact h.lent v (ho.other ht hv).1 bytes hb
    · intro owner bytes hb
      rw [heq] at hb
      obtain ⟨v, hv, hvi, hvl⟩ := h.lender owner bytes hb
      refine ⟨v, (hmem v).mpr (.inr ?_), hvi, hvl⟩
      rw [ht, List.mem_append, List.mem_cons] at hv
      rcases hv with hv | rfl | hv
      · exact List.mem_append_left _ hv
      · simp [hlent] at hvl
      · exact List.mem_append_right _ hv
  -- `t` puts its bytes up, into a pipe that nobody had lent anything.
  · constructor
    · intro v hv b hb
      rcases (hmem v).mp hv with rfl | hv
      · obtain rfl : b = bytes := Option.some.inj (hb.symm.trans hleft)
        rw [hsome, hi]
      · have := h.lent v (ho.other ht hv).1 b hb
        simp [hnone] at this
    · intro owner b hb
      rw [hsome] at hb
      obtain ⟨rfl, rfl⟩ := Prod.mk.inj (Option.some.inj hb)
      exact ⟨u, (hmem u).mpr (.inl rfl), hi, hleft⟩
  -- `t` takes its bytes out; they were all that was lent.
  · constructor
    · intro v hv b hb
      rcases (hmem v).mp hv with rfl | hv
      · simp [hleft] at hb
      · obtain ⟨hvl, hne⟩ := ho.other ht hv
        have hv := h.lent v hvl b hb
        rw [h.lent t htl bytes hlent] at hv
        exact absurd (Prod.mk.inj (Option.some.inj hv)).1.symm hne
    · intro owner b hb
      simp [hnone] at hb

theorem Custody.ended {l m : Link} (h : l.Custody) {before after : List Task} {t : Task}
    (ht : l.tasks = before ++ t :: after) (hm : m.tasks = before ++ after) (hc : t.calls = [])
    (hl : m.channel.pipe.loan = l.channel.pipe.loan) : m.Custody := by
  have hsub : ∀ v, v ∈ l.tasks ↔ v = t ∨ v ∈ m.tasks := by
    intro v
    simp only [ht, hm, List.mem_append, List.mem_cons]
    tauto
  constructor
  · intro v hv bytes hb
    rw [hl]
    exact h.lent v ((hsub v).mpr (.inr hv)) bytes hb
  · intro owner bytes hb
    rw [hl] at hb
    obtain ⟨v, hv, hvi, hvl⟩ := h.lender owner bytes hb
    rcases (hsub v).mp hv with rfl | hv
    · simp [Task.lending_nil hc] at hvl
    · exact ⟨v, hv, hvi, hvl⟩

theorem Custody.move {l : Link} (h : l.Custody) (ho : l.Orderly) (hs : l.channel.pipe.Sound)
    {m : Move} {s : Step Link (Option Event)} (hm : l.move m = some s) : s.state.Custody := by
  cases m with
  | spawn t =>
    obtain ⟨hu, -, rfl⟩ := spawned_of_move hm
    constructor
    · intro v hv bytes hb
      rcases List.mem_append.mp hv with hv | hv
      · exact h.lent v hv bytes hb
      · obtain rfl := List.mem_singleton.mp hv
        simp [Task.lending_of_unstarted hu] at hb
    · intro owner bytes hb
      obtain ⟨v, hv, hvl⟩ := h.lender owner bytes hb
      exact ⟨v, List.mem_append_left _ hv, hvl⟩
  | turn id =>
    cases turned_of_advance hm with
    | @called before after t call rest r ht hi _ hc hr =>
      subst hi
      apply h.section ho hs ht rfl (t.id_proceed rest r.value)
      rw [t.lending_proceed (ho.rest (by simp [ht]) hc), Task.lending_cons hc]
      exact Call.section_of_advance hr
    | ended ht _ _ hc => exact h.ended ht rfl hc rfl
    | @dropped _ _ t ht _ _ hc =>
      apply h.ended ht (tasks_markGone _ _) hc
      rw [channel_markGone]
      exact Pipe.loan_of_parcel (l.channel.pipe.parcel_close t.half none)

theorem Reachable.custody {l : Link} (h : l.Reachable) : l.Custody := by
  obtain ⟨settings, deeds, run⟩ := h
  induction run with
  | start => exact ⟨by simp [opened], by simp [opened, Settings.opened, Pipe.loan]⟩
  | next run h ih =>
    have hr : Reachable _ := ⟨settings, _, run⟩
    exact ih.move hr.orderly hr.sound h

/-- A step that begins with bytes lent is the end of the write that lent them. -/
theorem Reachable.section {l : Link} (hl : l.Reachable) {m : Move} {s : Step Link (Option Event)}
    (h : l.move m = some s) :
    ∃ owner lent left, Section owner lent l.channel s.effects s.state.channel left ∧
      (∀ t ∈ l.tasks, m = .turn t.id → lent = t.lending) ∧
      ∀ bytes, lent = some bytes →
        m = .turn owner ∧ l.channel.pipe.loan = some (owner, bytes) ∧ s.value ≠ none := by
  cases m with
  | spawn t =>
    obtain ⟨-, -, rfl⟩ := spawned_of_move h
    exact ⟨0, none, none, .quiet l.channel, by simp, by simp⟩
  | turn id =>
    have hu : ∀ {t u : Task}, t ∈ l.tasks → t.id = id → u ∈ l.tasks → Move.turn id = .turn u.id → u = t :=
      fun ht hi hu he => hl.orderly.unique hu ht ((Move.turn.inj he).symm.trans hi.symm)
    cases turned_of_advance h with
    | @called before after t call rest r ht hi _ hc hr =>
      have hm : t ∈ l.tasks := by simp [ht]
      refine ⟨id, _, _, Call.section_of_advance hr, ?_, ?_⟩
      · intro u hum he
        rw [hu hm hi hum he, Task.lending_cons hc]
      · intro bytes hb
        refine ⟨rfl, ?_, ?_⟩
        · rw [← hi]
          exact hl.custody.lent t hm bytes (by rw [Task.lending_cons hc, hb])
        · obtain ⟨answer, ha⟩ := Call.answered_of_lending hr hb
          simp [Task.tell, ha]
    | @ended before after t ht hi _ hc =>
      have hm : t ∈ l.tasks := by simp [ht]
      refine ⟨id, none, none, .quiet l.channel, ?_, by simp⟩
      intro u hum he
      rw [hu hm hi hum he, Task.lending_nil hc]
    | @dropped before after t ht hi _ hc =>
      have hm : t ∈ l.tasks := by simp [ht]
      refine ⟨id, none, none, ?_, ?_, by simp⟩
      · rw [channel_markGone]
        exact .other (Channel.Change.close l.channel _ none).changes
      · intro u hum he
        rw [hu hm hi hum he, Task.lending_nil hc]

theorem Reachable.parcel_of_lending {l : Link} (hl : l.Reachable) {t : Task} (ht : t ∈ l.tasks)
    {bytes : Bytes} (hb : t.lending = some bytes) :
    ∃ b, l.channel.pipe.parcel = some b ∧ b.origin = .lent t.id ∧ b.bytes = bytes :=
  Pipe.loan_eq_some.mp (hl.custody.lent t ht bytes hb)

theorem Reachable.origin_of_lending {l : Link} (hl : l.Reachable) {t : Task} (ht : t ∈ l.tasks)
    (hs : t.lending.isSome) {b : Parcel} (hb : l.channel.pipe.parcel = some b) :
    b.origin = .lent t.id := by
  obtain ⟨bytes, hs⟩ := Option.isSome_iff_exists.mp hs
  obtain ⟨c, hc, ho, -⟩ := hl.parcel_of_lending ht hs
  obtain rfl : c = b := Option.some.inj (hc.symm.trans hb)
  exact ho

theorem Reachable.lender_of_origin {l : Link} (hl : l.Reachable) {b : Parcel} {owner : Nat}
    (hb : l.channel.pipe.parcel = some b) (ho : b.origin = .lent owner) :
    ∃ t ∈ l.tasks, t.id = owner ∧ t.lending = some b.bytes :=
  hl.custody.lender owner b.bytes (Pipe.loan_eq_some.mpr ⟨b, hb, ho, rfl⟩)

theorem Reachable.lender_unique {l : Link} (hl : l.Reachable) {b : Parcel}
    (hb : l.channel.pipe.parcel = some b) {t u : Task} (ht : t ∈ l.tasks) (hu : u ∈ l.tasks)
    (hts : t.lending.isSome) (hus : u.lending.isSome) : t = u := by
  apply hl.orderly.unique ht hu
  have ho := hl.origin_of_lending hu hus hb
  rw [hl.origin_of_lending ht hts hb] at ho
  exact Origin.lent.inj ho

theorem lent_parcel_custody {l : Link} (hl : l.Reachable) :
    ((∃ b owner, l.channel.pipe.parcel = some b ∧ b.origin = .lent owner) ↔
      ∃! t, t ∈ l.tasks ∧ t.lending.isSome) ∧
    (∀ t ∈ l.tasks, ∀ bytes, t.lending = some bytes →
      ∃ b, l.channel.pipe.parcel = some b ∧ b.origin = .lent t.id ∧ b.bytes = bytes) ∧
    ∀ m s, l.move m = some s →
      (∀ b owner, l.channel.pipe.parcel = some b → b.origin = .lent owner → m ≠ .turn owner →
        (s.state.channel.pipe.parcel = some b ∧ handed s.effects = []) ∨
          ∃ room, l.channel.pipe.closed = false ∧ b.finished = false ∧
            s.state.channel.pipe.parcel = some (b.advance room) ∧
            handed s.effects = [b.front room]) ∧
      (∀ bytes ∈ handed s.effects, ∃ b room,
        l.channel.pipe.parcel = some b ∧ bytes = b.front room ∧
          ∀ owner, b.origin = .lent owner → ∃ t ∈ l.tasks, t.id = owner ∧ t.lending = some b.bytes) ∧
      ∀ t ∈ l.tasks, ∀ bytes, t.lending = some bytes → m = .turn t.id →
        ∃ b, l.channel.pipe.parcel = some b ∧ b.origin = .lent t.id ∧ b.bytes = bytes ∧
          s.state.channel.pipe.parcel = none ∧ .vacated b.passed ∈ s.effects ∧ s.value ≠ none := by
  refine ⟨⟨?_, ?_⟩, fun t ht bytes hb => hl.parcel_of_lending ht hb, ?_⟩
  · rintro ⟨b, owner, hb, ho⟩
    obtain ⟨t, ht, rfl, htl⟩ := hl.lender_of_origin hb ho
    have hts : t.lending.isSome := by simp [htl]
    refine ⟨t, ⟨ht, hts⟩, ?_⟩
    rintro u ⟨hu, hus⟩
    exact hl.lender_unique hb hu ht hus hts
  · rintro ⟨t, ⟨ht, htl⟩, -⟩
    obtain ⟨bytes, htl⟩ := Option.isSome_iff_exists.mp htl
    obtain ⟨b, hb, ho, -⟩ := hl.parcel_of_lending ht htl
    exact ⟨b, t.id, hb, ho⟩
  · intro m s hm
    obtain ⟨owner, lent, left, hsec, htask, hown⟩ := hl.section hm
    refine ⟨?_, ?_, ?_⟩
    · intro b o hb ho hne
      cases lent with
      | none => exact hsec.parcel_of_lent hl.sound hb ho
      | some bytes =>
        obtain ⟨rfl, hloan, -⟩ := hown bytes rfl
        obtain ⟨a, ha, hao, -⟩ := Pipe.loan_eq_some.mp hloan
        obtain rfl : a = b := Option.some.inj (ha.symm.trans hb)
        rw [ho] at hao
        obtain rfl := Origin.lent.inj hao
        exact absurd rfl hne
    · intro bytes hb
      rcases hsec.handed_cases with he | ⟨b, room, hp, -, he⟩
      · simp [he] at hb
      · rw [he, List.mem_singleton] at hb
        exact ⟨b, room, hp, hb, fun o ho => hl.lender_of_origin hp ho⟩
    · rintro t ht bytes htl rfl
      obtain ⟨b, hb, ho, hbytes⟩ := hl.parcel_of_lending ht htl
      obtain rfl := (htask t ht rfl).trans htl
      obtain ⟨-, hgone, hvac⟩ := hsec.vacated (by simp) hb
      exact ⟨b, hb, ho, hbytes, hgone, hvac, (hown bytes rfl).2.2⟩

theorem half_read_send_custody :
    ∃ deeds l, Run (.opened {}) deeds l ∧ handed (effects deeds) = [[1, 2]] ∧
      ∃! t, t ∈ l.tasks ∧ t.lending.isSome := by
  have run := @run_of_play (.opened {}) _
    [.spawn ⟨1, "writer", .write, .share, 0, [.send [1, 2, 3] false]⟩, .turn 1,
      .spawn ⟨2, "reader", .read, .share, 0, [.receive 2]⟩, .turn 2] _ rfl
  exact ⟨_, _, run, rfl, (lent_parcel_custody ⟨_, _, run⟩).1.mp ⟨_, 1, rfl, rfl⟩⟩

end Link

end Handoff
