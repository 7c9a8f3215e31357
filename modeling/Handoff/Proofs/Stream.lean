import Handoff.Proofs.Author
import Handoff.Proofs.Delivery
import Handoff.Proofs.Told

/-!
All that readers get is what writers put up, write after write. Of each write but the latest they
have got all or, where it was taken back unmet, nothing; the latest may be in the pipe yet, or have
been cut short by a close.
-/

namespace Handoff

def Delivery.offer (d : Delivery) : Origin × Bytes :=
  (d.origin, d.bytes)

theorem offer_foldl_record (ds : List Delivery) (es : List Effect) :
    (es.foldl record ds).reverse.map Delivery.offer = ds.reverse.map Delivery.offer ++ placed es := by
  induction es generalizing ds with
  | nil => simp [placed]
  | cons e es ih =>
    have hr : (record ds e).reverse.map Delivery.offer =
        ds.reverse.map Delivery.offer ++ e.placed?.toList := by
      unfold record
      split
      · simp [Effect.placed?, Delivery.offer]
      · cases ds <;> simp [Effect.placed?, Delivery.offer]
      · cases ds <;> simp [Effect.placed?, Delivery.offer]
      · cases ds <;> simp [Effect.placed?, Delivery.offer]
      · rename_i hp _ _ _
        have he : e.placed? = none := by
          cases e with
          | placed origin bytes => exact absurd rfl (hp origin bytes)
          | _ => rfl
        simp [he]
    have hc : placed (e :: es) = e.placed?.toList ++ placed es := by
      cases he : e.placed? <;> simp [placed, he]
    rw [List.foldl_cons, ih, hr, List.append_assoc, hc]

/-- What becomes of all writes of a run, and what its calls tell of it. -/
structure Streamed (deeds : List Deed) (l : Link) : Prop
    extends Accounts (ledger (effects deeds)) l.channel.pipe where
  writes : (ledger (effects deeds)).reverse.map Delivery.offer = placed (effects deeds)
  stream : (handed (effects deeds)).flatten =
    (ledger (effects deeds)).reverse.flatMap Delivery.received
  pieces : handed (effects deeds) = (ledger (effects deeds)).reverse.flatMap Delivery.pieces
  fronts : ∀ w ∈ ledger (effects deeds), w.received <+: w.bytes
  authors : ∀ d ∈ deeds, ∀ e ∈ authored d.step.effects,
    ∃ (id : Nat) (half : Half) (call : Call half) (r : Step Channel (Progress (Call half))),
      d.move = .turn id ∧ d.found.call? id = some ⟨half, call⟩ ∧
      call.advance id d.found.channel = some r ∧ r.state = d.step.state.channel ∧
      call.Author id d.found.channel r e
  lone : ∀ d ∈ deeds, handed d.step.effects = [] ∨
    ∃ b room, d.found.channel.pipe.parcel = some b ∧ handed d.step.effects = [b.front room]
  spawned : ∀ d ∈ deeds, ∀ t, d.move = .spawn t → d.step.effects = []
  gained : ∀ d ∈ deeds, ∀ id, d.move = .turn id →
    d.gains id = d.found.gains id ++ solid (handed d.step.effects)
  unmixed : ∀ d ∈ deeds, ∀ event, d.step.value = some event → ∀ bytes ∈ event.answer.gains,
    ∃ w ∈ ledger (effects deeds), bytes ∈ w.pieces

theorem Link.author_of_move {l : Link} {m : Move} {s : Step Link (Option Event)}
    (h : l.move m = some s) {e : Effect} (he : e ∈ authored s.effects) :
    ∃ (id : Nat) (half : Half) (call : Call half) (r : Step Channel (Progress (Call half))),
      m = .turn id ∧ l.call? id = some ⟨half, call⟩ ∧ call.advance id l.channel = some r ∧
      r.state = s.state.channel ∧ call.Author id l.channel r e := by
  cases m with
  | spawn t =>
    obtain ⟨-, -, rfl⟩ := spawned_of_move h
    simp [authored] at he
  | turn id =>
    cases turned_of_advance h with
    | @called before after t call rest r ht hi hb hc hr =>
      subst hi
      exact ⟨t.id, t.half, call, r, rfl, call?_of_tasks ht hb hc, hr, rfl, Call.author_of_advance hr he⟩
    | ended => simp [authored] at he
    | dropped => simp at he

theorem Run.streamed {settings : Settings} {deeds : List Deed} {l : Link}
    (run : Run (.opened settings) deeds l) : Streamed deeds l where
  toAccounts := run.accounts
  writes := offer_foldl_record [] (effects deeds)
  stream := by
    rw [run.pieces, List.flatten_eq_flatMap, List.flatMap_assoc]
    congr
    funext w
    exact List.flatten_eq_flatMap.symm
  pieces := run.pieces
  fronts w hw := run.accounts.received hw
  authors d hd e he := by
    obtain ⟨_, _, -, -, hm⟩ := run.split hd
    exact Link.author_of_move hm he
  lone d hd := by
    obtain ⟨_, _, -, -, hm⟩ := run.split hd
    obtain ⟨_, _, _, hsec⟩ := Link.section_of_move hm
    apply hsec.handed_cases.imp_right
    rintro ⟨b, room, hb, -, hh⟩
    exact ⟨b, room, hb, hh⟩
  spawned d hd t ht := by
    obtain ⟨_, _, -, -, hm⟩ := run.split hd
    rw [ht] at hm
    obtain ⟨-, -, hs⟩ := Link.spawned_of_move hm
    rw [hs]
    rfl
  gained d hd id hi := by
    obtain ⟨earlier, _, -, hr, hm⟩ := run.split hd
    have ho : d.found.Orderly := Link.Reachable.orderly ⟨settings, earlier, hr⟩
    rw [hi] at hm
    have hg := ho.gains_turn hm
    exact hg
  unmixed d hd event hv bytes hb := by
    -- A call may tell of bytes that earlier steps of its own were handed.
    obtain ⟨earlier, later, he, hr, hm⟩ := run.split hd
    have hh : bytes ∈ handed (effects earlier) ∨ bytes ∈ handed d.step.effects :=
      hr.handed_of_told hm hv hb
    have hall : bytes ∈ handed (effects deeds) := by
      rw [he, effects, List.flatMap_append, List.flatMap_cons, handed_append, handed_append]
      simp only [List.mem_append]
      tauto
    rw [run.pieces] at hall
    obtain ⟨w, hw, hp⟩ := List.mem_flatMap.mp hall
    exact ⟨w, List.mem_reverse.mp hw, hp⟩

theorem two_sends_streamed :
    ∃ deeds l, Run (.opened {}) deeds l ∧ handed (effects deeds) = [[1, 2], [3], [4]] ∧
      Streamed deeds l := by
  have run := @run_of_play (.opened {}) _
    [.spawn ⟨1, "first", .write, .share, 0, [.send [1, 2, 3] false]⟩,
      .spawn ⟨2, "second", .write, .share, 0, [.send [4] false]⟩,
      .spawn ⟨3, "reader", .read, .share, 0, [.receive 2, .receive 2, .receive 2]⟩,
      .turn 1, .turn 3, .turn 3, .turn 1, .turn 2, .turn 3] _ rfl
  exact ⟨_, _, run, rfl, run.streamed⟩

end Handoff
