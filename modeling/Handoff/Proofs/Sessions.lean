import Handoff.Proofs.Outside
import Handoff.Session.Command

/-!
Whatever is done with a session from outside, each of its links has come there by a run of its own.
-/

namespace Handoff

theorem Link.ids_of_advance {l : Link} {id : Nat} {s : Step Link (Option Event)}
    (h : l.advance id = some s) : ∀ u ∈ s.state.tasks, ∃ t ∈ l.tasks, t.id = u.id := by
  cases turned_of_advance h with
  | @called before after t call rest r ht =>
    intro u hu
    rw [ht]
    rcases List.mem_append.mp hu with hu | hu
    · exact ⟨u, List.mem_append_left _ hu, rfl⟩
    · rcases List.mem_cons.mp hu with rfl | hu
      · exact ⟨t, by simp, (t.id_proceed rest r.value).symm⟩
      · exact ⟨u, by simp [hu], rfl⟩
  | @ended before after t ht =>
    intro u hu
    rw [ht]
    rcases List.mem_append.mp hu with hu | hu
    · exact ⟨u, List.mem_append_left _ hu, rfl⟩
    · exact ⟨u, by simp [hu], rfl⟩
  | @dropped before after t ht =>
    intro u hu
    rw [tasks_markGone] at hu
    rw [ht]
    rcases List.mem_append.mp hu with hu | hu
    · exact ⟨u, List.mem_append_left _ hu, rfl⟩
    · exact ⟨u, by simp [hu], rfl⟩

def Command.unstarted : Command → Bool
  | call prompt => prompt.unstarted
  | spawn _ _ _ calls => calls.all Call.unstarted
  | pollWrite _ _ _ _ | drop _ | setBuffer _ _ => true

namespace Session

structure Orderly (s : Session) : Prop where
  reachable : ∀ l ∈ s.links, l.Reachable
  numbered : ∀ l ∈ s.links, ∀ t ∈ l.tasks, t.id < s.spawned

variable {s : Session}

theorem orderly_start (settings : Settings) (channels : Nat) (buffers : List (String × Bytes)) :
    (start settings channels buffers).Orderly where
  reachable l hl := by
    obtain ⟨-, rfl⟩ := List.mem_replicate.mp hl
    exact ⟨settings, [], .start⟩
  numbered l hl t ht := by
    obtain ⟨-, rfl⟩ := List.mem_replicate.mp hl
    simp at ht

theorem Orderly.of_links {t : Session} (h : s.Orderly) (hl : t.links = s.links)
    (hn : t.spawned = s.spawned) : t.Orderly where
  reachable := hl ▸ h.reachable
  numbered := hn ▸ hl ▸ h.numbered

theorem Orderly.set (h : s.Orderly) {t : Session} {link : Nat} {l : Link}
    (ht : t.links = s.links.set link l) (hn : s.spawned ≤ t.spawned) (hr : l.Reachable)
    (hl : ∀ u ∈ l.tasks, u.id < t.spawned) : t.Orderly where
  reachable m hm := by
    rw [ht] at hm
    rcases List.mem_or_eq_of_mem_set hm with hm | rfl
    · exact h.reachable m hm
    · exact hr
  numbered m hm u hu := by
    rw [ht] at hm
    rcases List.mem_or_eq_of_mem_set hm with hm | rfl
    · exact Nat.lt_of_lt_of_le (h.numbered m hm u hu) hn
    · exact hl u hu

theorem Orderly.accept (h : s.Orderly) {α : Type} {link : Nat} {step : Step Link α}
    (hr : step.state.Reachable) (hl : ∀ u ∈ step.state.tasks, u.id < s.spawned) :
    (s.accept link step).Orderly :=
  h.set rfl (Nat.le_refl _) hr hl

theorem Orderly.advance (h : s.Orderly) {link id : Nat} {t : Session}
    (ht : s.advance link id = some t) : t.Orderly := by
  simp only [Session.advance, Option.bind_eq_bind, Option.bind_eq_some_iff] at ht
  obtain ⟨l, hl, step, hs, ht⟩ := ht
  obtain rfl := Option.some.inj ht
  have hm : l ∈ s.links := List.mem_of_getElem? hl
  have hr := @Link.Reachable.move l (.turn id) step (h.reachable l hm) hs
  have ha : (s.accept link step).Orderly := by
    apply h.accept hr
    intro u hu
    obtain ⟨v, hv, hi⟩ := Link.ids_of_advance hs u hu
    rw [← hi]
    exact h.numbered l hm v hv
  exact ha.of_links rfl rfl

theorem Orderly.performOn (h : s.Orderly) {link : Nat} {l : Link} (hl : l ∈ s.links) {half : Half}
    {p : Prompt half} (hp : p.unstarted = true) : (s.performOn link l p).2.Orderly := by
  unfold Session.performOn
  split
  · exact h
  · exact h.accept ((h.reachable l hl).perform hp) (h.numbered l hl)

theorem Orderly.execute (h : s.Orderly) {link : Nat} {command : Command}
    (hu : command.unstarted = true) {response : Response} {t : Session}
    (ht : s.execute link command = some (response, t)) : t.Orderly := by
  simp only [Session.execute, Option.bind_eq_bind, Option.bind_eq_some_iff] at ht
  obtain ⟨l, hl, ht⟩ := ht
  have hm : l ∈ s.links := List.mem_of_getElem? hl
  cases command with
  | call prompt =>
    have hp := @performOn s h link l hm _ prompt hu
    rw [Option.some.inj ht] at hp
    exact hp
  | pollWrite buffer offset length waker =>
    obtain ⟨slice, -, ht⟩ := Option.bind_eq_some_iff.mp ht
    have hp := @performOn s h link l hm _ (.pollWrite slice waker) rfl
    rw [Option.some.inj ht] at hp
    exact hp
  | drop half =>
    simp only at ht
    split at ht
    · obtain ⟨-, rfl⟩ := Prod.mk.inj (Option.some.inj ht)
      exact h
    · obtain ⟨-, rfl⟩ := Prod.mk.inj (Option.some.inj ht)
      apply h.accept ((h.reachable l hm).dropHandle half)
      intro u hu
      rw [Link.dropHandle, Step.state_within, Link.tasks_markGone] at hu
      exact h.numbered l hm u hu
  | spawn half name mode calls =>
    simp only at ht
    split at ht
    · obtain ⟨-, rfl⟩ := Prod.mk.inj (Option.some.inj ht)
      exact h
    · obtain ⟨-, rfl⟩ := Prod.mk.inj (Option.some.inj ht)
      apply h.set rfl (Nat.le_succ _)
      · apply (h.reachable l hm).spawn
        · exact List.all_eq_true.mp hu
        · exact fun u hum => Nat.ne_of_lt (h.numbered l hm u hum)
      · intro u hum
        rcases List.mem_append.mp hum with hum | hum
        · exact Nat.lt_succ_of_lt (h.numbered l hm u hum)
        · obtain rfl := List.mem_singleton.mp hum
          exact Nat.lt_succ_self _
  | setBuffer name bytes =>
    obtain ⟨_, -, ht⟩ := Option.bind_eq_some_iff.mp ht
    obtain ⟨-, rfl⟩ := Prod.mk.inj (Option.some.inj ht)
    exact h.of_links rfl rfl

theorem Orderly.turn (h : s.Orderly) {current : Option (Nat × Nat)} {next : Nat × Nat} {t : Session}
    (ht : s.turn current = some (next, t)) : t.Orderly := by
  have attempt : ∀ place, s.attempt place = some (next, t) → t.Orderly := by
    intro place hp
    obtain ⟨u, hu, he⟩ := Option.map_eq_some_iff.mp hp
    obtain ⟨-, rfl⟩ := Prod.mk.inj he
    exact h.advance hu
  rcases Option.or_eq_some_iff.mp ht with ht | ⟨-, ht⟩
  · obtain ⟨place, -, hp⟩ := Option.bind_eq_some_iff.mp ht
    exact attempt place hp
  · obtain ⟨place, -, hp⟩ := List.exists_of_findSome?_eq_some ht
    exact attempt _ hp

theorem Orderly.settleFrom (h : s.Orderly) (current : Option (Nat × Nat)) :
    (s.settleFrom current).Orderly := by
  induction s, current using Session.settleFrom.induct with
  | case1 s current hv =>
    rw [Session.settleFrom]
    split
    · exact h
    · rename_i ht
      rw [hv] at ht
      cases ht
  | case2 s current next t hv ih =>
    rw [Session.settleFrom]
    split
    · exact h
    · rename_i ht
      rw [hv] at ht
      cases ht
      exact ih (h.turn hv)

theorem Orderly.step (h : s.Orderly) {link : Nat} {command : Command} (hu : command.unstarted = true)
    (held : Bool) {report : Report} {t : Session}
    (ht : s.step link command held = some (report, t)) : t.Orderly := by
  obtain ⟨⟨response, u⟩, he, ht⟩ := Option.map_eq_some_iff.mp ht
  obtain ⟨-, rfl⟩ := Prod.mk.inj ht
  have hx := h.execute hu he
  cases held with
  | true => exact hx.of_links rfl rfl
  | false => exact (hx.settleFrom none).of_links rfl rfl

/-- The session after these commands: on which link, and whether the tasks are held meanwhile. -/
def after (s : Session) : List (Nat × Command × Bool) → Option Session
  | [] => some s
  | (link, command, held) :: rest => (s.step link command held).bind fun r => r.2.after rest

theorem Orderly.after (h : s.Orderly) {commands : List (Nat × Command × Bool)}
    (hu : ∀ c ∈ commands, c.2.1.unstarted = true) {t : Session} (ht : s.after commands = some t) :
    t.Orderly := by
  induction commands generalizing s with
  | nil =>
    obtain rfl := Option.some.inj ht
    exact h
  | cons c rest ih =>
    obtain ⟨⟨report, u⟩, hs, hr⟩ := Option.bind_eq_some_iff.mp ht
    apply ih (h.step (hu c List.mem_cons_self) _ hs) _ hr
    intro d hd
    exact hu d (List.mem_cons_of_mem _ hd)

theorem reachable_of_after {settings : Settings} {channels : Nat} {buffers : List (String × Bytes)}
    {commands : List (Nat × Command × Bool)} (hu : ∀ c ∈ commands, c.2.1.unstarted = true)
    {t : Session} (ht : (start settings channels buffers).after commands = some t) :
    ∀ l ∈ t.links, l.Reachable :=
  ((orderly_start settings channels buffers).after hu ht).reachable

end Session

end Handoff
