import Handoff.Proofs.Mirror
import Handoff.Proofs.Reasons

/-!
A close taken apart: it keeps its reason, then shuts the pipe, and only for its announcement has the
pipe to itself. In between others may go on.
-/

namespace Handoff

def Move.turns : Move → Nat → Bool
  | turn id, other => id = other
  | spawn _, _ => false

theorem Call.parked_of_closing {half : Half} {owner : Nat} {call : Call half} {c : Channel}
    {s : Step Channel (Progress (Call half))} (h : call.advance owner c = some s)
    (hc : call.closing.isSome) : s.state.pipe.parked = [] := by
  cases call with
  | prompt p =>
    obtain rfl := Option.some.inj h
    cases p with
    | closeFlushed | close => rfl
    | _ => simp [closing, Prompt.closing] at hc
  | _ => simp [closing] at hc

namespace Link

def kept (l : Link) (half : Half) (reason : Option Reason) : Link :=
  { l with channel := { l.channel with
      pipe := l.channel.pipe.keepReason half (reason.getD (Pipe.defaultReason half)) } }

def shut (l : Link) (half : Half) : Link :=
  { l with channel := { l.channel with pipe := (l.channel.pipe.shut half).state } }

theorem mem_others {before after : List Task} {t u : Task} (ht : t ∈ before ++ u :: after)
    (hi : u.id ≠ t.id) : t ∈ before ++ after := by
  rcases List.mem_append.mp ht with ht | ht | ⟨_, ht⟩
  · exact List.mem_append_left _ ht
  · exact absurd rfl hi
  · exact List.mem_append_right _ ht

theorem task_of_move {l : Link} {m : Move} {s : Step Link (Option Event)} (h : l.move m = some s)
    {t : Task} (ht : t ∈ l.tasks) (hi : m.turns t.id = false) : t ∈ s.state.tasks := by
  cases m with
  | spawn u =>
    obtain ⟨-, -, rfl⟩ := spawned_of_move h
    exact List.mem_append_left _ ht
  | turn id =>
    have hi : id ≠ t.id := by simpa [Move.turns] using hi
    cases turned_of_advance h with
    | called hl hu =>
      have hm := mem_others (hl ▸ ht) (hu ▸ hi)
      rw [List.mem_append] at hm
      rw [List.mem_append, List.mem_cons]
      exact hm.imp_right .inr
    | ended hl hu => exact mem_others (hl ▸ ht) (hu ▸ hi)
    | dropped hl hu =>
      rw [tasks_markGone]
      exact mem_others (hl ▸ ht) (hu ▸ hi)

theorem parked_of_closing {l : Link} (hl : l.Orderly) {t : Task} (ht : t ∈ l.tasks)
    (hc : t.closing.isSome) {s : Step Link (Option Event)} (h : l.move (.turn t.id) = some s) :
    s.state.channel.pipe.parked = [] := by
  cases turned_of_advance h with
  | @called before after u call rest r hu hi hb hk hr =>
    obtain rfl : u = t := hl.unique (by simp [hu]) ht hi
    rw [Task.closing, hk] at hc
    exact Call.parked_of_closing hr hc
  | @ended before after u hu hi hb hk hm =>
    obtain rfl : u = t := hl.unique (by simp [hu]) ht hi
    simp [Task.closing, hk, hm] at hc
  | dropped =>
    rw [channel_markGone]
    rfl

end Link

/-- Runs of closes taken apart. Listed are the tasks whose close has begun, those among them whose close
has shut the pipe, and the effects. -/
inductive Split (l : Link) : List Nat → List Nat → List Effect → Link → Prop
  | start : Split l [] [] [] l
  | keep {begun fired : List Nat} {es : List Effect} {m : Link} {t : Task} {reason : Option Reason}
      (run : Split l begun fired es m) (ht : t ∈ m.tasks) (hc : t.closing = some reason) :
      Split l (t.id :: begun) fired es (m.kept t.half reason)
  | shut {begun fired : List Nat} {es : List Effect} {m : Link} {t : Task}
      (run : Split l begun fired es m) (ht : t ∈ m.tasks) (hb : t.id ∈ begun) :
      Split l begun (t.id :: fired) (es ++ (m.channel.pipe.shut t.half).effects) (m.shut t.half)
  | next {begun fired : List Nat} {es : List Effect} {m : Link} {move : Move}
      {s : Step Link (Option Event)} (run : Split l begun fired es m) (h : m.move move = some s)
      (hc : ∀ t ∈ m.tasks, move = .turn t.id → t.closing.isSome → t.id ∈ fired) :
      Split l (begun.filter fun id => !move.turns id) (fired.filter fun id => !move.turns id)
        (es ++ s.effects) s.state

/-- What closes that have begun have left in a link. -/
structure Begun (m : Link) (begun fired : List Nat) : Prop where
  closing : ∀ id ∈ begun, ∃ t ∈ m.tasks, t.id = id ∧ t.closing.isSome ∧
    ∃ reason, m.channel.pipe.ownReason t.half = some reason
  within : fired ⊆ begun
  closed : fired ≠ [] → m.channel.pipe.closed = true
  kept : m.channel.pipe.closed = false → ∀ half reason,
    m.channel.pipe.ownReason half = some reason → begun ≠ []
  owed : m.channel.pipe.owed ≠ [] → fired ≠ []

namespace Begun

variable {m : Link} {begun fired : List Nat}

theorem keep (h : Begun m begun fired) {t : Task} {reason : Option Reason} (ht : t ∈ m.tasks)
    (hc : t.closing = some reason) : Begun (m.kept t.half reason) (t.id :: begun) fired where
  closing id hid := by
    rcases List.mem_cons.mp hid with rfl | hid
    · refine ⟨t, ht, rfl, by simp [hc], ?_⟩
      simp only [Link.kept, Pipe.ownReason_keepReason, if_pos]
      cases m.channel.pipe.ownReason t.half with
      | none => exact ⟨_, rfl⟩
      | some old => exact ⟨old, rfl⟩
    · obtain ⟨u, hu, hi, hcu, old, ho⟩ := h.closing id hid
      exact ⟨u, hu, hi, hcu, old, m.channel.pipe.keepReason_of_kept _ _ ho⟩
  within := List.subset_cons_of_subset _ h.within
  closed hs := by
    have hcl := h.closed hs
    simpa [Link.kept] using hcl
  kept _ _ _ _ := List.cons_ne_nil _ _
  owed ho := by
    apply h.owed
    simpa [Link.kept] using ho

theorem shutting (h : Begun m begun fired) {t : Task} (hb : t.id ∈ begun) :
    Begun (m.shut t.half) begun (t.id :: fired) where
  closing id hid := by
    obtain ⟨u, hu, hi, hcu, old, ho⟩ := h.closing id hid
    refine ⟨u, hu, hi, hcu, old, ?_⟩
    rw [← ho, Link.shut]
    cases u.half <;> rfl
  within := List.cons_subset.mpr ⟨hb, h.within⟩
  closed _ := rfl
  kept hc := absurd hc (by simp [Link.shut, Pipe.shut])
  owed _ := List.cons_ne_nil _ _

theorem closed_of_turn (h : Begun m begun fired) {move : Move}
    (hc : ∀ t ∈ m.tasks, move = .turn t.id → t.closing.isSome → t.id ∈ fired) :
    ∀ t ∈ m.tasks, move = .turn t.id → t.closing.isSome → m.channel.pipe.closed = true :=
  fun t ht hm hcl => h.closed (List.ne_nil_of_mem (hc t ht hm hcl))

theorem move (h : Begun m begun fired) (ho : m.Orderly) {move : Move} {s : Step Link (Option Event)}
    (hs : m.move move = some s)
    (hc : ∀ t ∈ m.tasks, move = .turn t.id → t.closing.isSome → t.id ∈ fired) :
    Begun s.state (begun.filter fun id => !move.turns id) (fired.filter fun id => !move.turns id) := by
  obtain ⟨q, -, -, hm⟩ := Link.mirrored_move hs (h.closed_of_turn hc)
  obtain ⟨owner, lent, left, hsec⟩ := Link.section_of_move hs
  have hl := hsec.leads
  have hcl : s.state.channel.pipe.closed = m.channel.pipe.closed := hm.closed
  -- Only its own turn ends a close, and by then the pipe is shut.
  have turned : ∀ id ∈ begun, move.turns id = true →
      m.channel.pipe.closed = true ∧ s.state.channel.pipe.parked = [] := by
    intro id hid hi
    obtain ⟨t, ht, rfl, hct, -⟩ := h.closing id hid
    cases move with
    | spawn => simp [Move.turns] at hi
    | turn other =>
      obtain rfl : other = t.id := by simpa [Move.turns] using hi
      exact ⟨h.closed_of_turn hc t ht rfl hct, Link.parked_of_closing ho ht hct hs⟩
  constructor
  · intro id hid
    obtain ⟨hid, hi⟩ := List.mem_filter.mp hid
    obtain ⟨t, ht, rfl, hct, reason, hr⟩ := h.closing id hid
    exact ⟨t, Link.task_of_move hs ht (by simpa using hi), rfl, hct, reason, hl.kept _ _ hr⟩
  · exact List.filter_subset _ h.within
  · intro hne
    obtain ⟨id, hid⟩ := List.exists_mem_of_ne_nil _ hne
    rw [hcl]
    exact h.closed (List.ne_nil_of_mem (List.mem_of_mem_filter hid))
  · intro hopen half reason hr
    obtain ⟨hopen, hsame⟩ := hl.opened hopen
    obtain ⟨id, hid⟩ := List.exists_mem_of_ne_nil _ (h.kept hopen half reason (hsame half ▸ hr))
    apply List.ne_nil_of_mem
    refine List.mem_filter.mpr ⟨hid, ?_⟩
    cases hi : move.turns id with
    | false => rfl
    | true =>
      have hcl := (turned id hid hi).1
      simp [hopen] at hcl
  · intro hne
    have hcs : s.state.channel.pipe.closed = true := by
      unfold Pipe.owed at hne
      split at hne
      · assumption
      · simp at hne
    have hw := hm.wakes
    rw [hm.calm (hcl.symm.trans hcs), List.append_nil] at hw
    have howed : m.channel.pipe.owed ≠ [] := by
      rw [hw]
      exact List.append_ne_nil_of_right_ne_nil _ hne
    obtain ⟨id, hid⟩ := List.exists_mem_of_ne_nil _ (h.owed howed)
    apply List.ne_nil_of_mem
    refine List.mem_filter.mpr ⟨hid, ?_⟩
    cases hi : move.turns id with
    | false => rfl
    | true =>
      have hp := (turned id (h.within hid) hi).2
      simp [Pipe.owed, hp] at hne

theorem owed_eq_nil (h : Begun m [] fired) : m.channel.pipe.owed = [] := by
  by_contra hne
  exact h.owed hne (List.subset_nil.mp h.within)

theorem seen_eq (h : Begun m [] fired) : m.seen = m := by
  have hr : m.channel.pipe.closed = false → ∀ half, m.channel.pipe.ownReason half = none := by
    intro hc half
    by_contra hne
    obtain ⟨reason, hr⟩ := Option.ne_none_iff_exists'.mp hne
    exact h.kept hc half reason hr rfl
  rw [Link.seen, Channel.seen, Pipe.seen_eq_self h.owed_eq_nil hr]

end Begun

end Handoff
