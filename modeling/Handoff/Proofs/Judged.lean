import Mathlib.Data.List.Induction
import Handoff.Proofs.Underway

/-!
What a write should be told, going by what readers got of its bytes.
-/

namespace Handoff

theorem exists_foldl_record (ds : List Delivery) (es : List Effect) :
    ∃ older, es.foldl record ds = ledger es ++ older := by
  induction es using List.reverseRecOn with
  | nil => exact ⟨ds, rfl⟩
  | append_singleton es e ih =>
    obtain ⟨older, h⟩ := ih
    rw [ledger_append, List.foldl_append, h]
    simp only [List.foldl_cons, List.foldl_nil]
    cases hl : ledger es with
    | cons d rest =>
      refine ⟨older, ?_⟩
      unfold record
      split <;> rfl
    | nil =>
      unfold record
      split
      · exact ⟨older, rfl⟩
      · exact ⟨_, rfl⟩
      · exact ⟨_, rfl⟩
      · exact ⟨_, rfl⟩
      · exact ⟨older, rfl⟩

/-- What readers got of the write of this origin during the effects. -/
def served (origin : Origin) (es : List Effect) : List Bytes :=
  ((ledger es).filter (·.origin = origin)).flatMap Delivery.pieces

theorem offer_ledger (es : List Effect) : (ledger es).reverse.map Delivery.offer = placed es :=
  offer_foldl_record [] es

theorem filter_ledger (origin : Origin) (es : List Effect) :
    ((ledger es).filter (·.origin = origin)).reverse.map Delivery.offer =
      (placed es).filter (·.1 = origin) := by
  rw [← offer_ledger es, List.filter_map, ← List.filter_reverse]
  rfl

theorem served_of_unplaced {origin : Origin} {es : List Effect}
    (h : (placed es).filter (·.1 = origin) = []) : served origin es = [] := by
  rw [← filter_ledger, List.map_eq_nil_iff, List.reverse_eq_nil_iff] at h
  rw [served, h, List.flatMap_nil]

/-- What happened before the write was put up has nothing to do with it. -/
theorem served_append {origin : Origin} {es : List Effect} (h : (placed es).filter (·.1 = origin) = [])
    (fs : List Effect) : served origin (es ++ fs) = served origin fs := by
  obtain ⟨older, hf⟩ := exists_foldl_record (ledger es) fs
  have hold : older.reverse.map Delivery.offer = placed es := by
    have ho := offer_ledger (es ++ fs)
    rw [ledger_append, hf, List.reverse_append, List.map_append, offer_ledger, placed_append] at ho
    exact List.append_cancel_right ho
  have hnone : older.filter (·.origin = origin) = [] := by
    rw [List.filter_eq_nil_iff]
    intro e he
    apply List.filter_eq_nil_iff.mp h e.offer
    rw [← hold]
    exact List.mem_map_of_mem (List.mem_reverse.mpr he)
  rw [served, ledger_append, hf, List.filter_append, hnone, List.append_nil, served]

theorem served_of_placed {origin : Origin} {bytes : Bytes} {es : List Effect}
    (h : (placed es).filter (·.1 = origin) = [(origin, bytes)]) :
    ∃ newer d older, ledger es = newer ++ d :: older ∧ (∀ e ∈ newer, e.origin ≠ origin) ∧
      d.origin = origin ∧ d.bytes = bytes ∧ served origin es = d.pieces := by
  rw [← filter_ledger] at h
  obtain ⟨d, hd, ho⟩ := List.map_eq_singleton_iff.mp h
  have hf : (ledger es).filter (·.origin = origin) = [d] := by
    simpa using congrArg List.reverse hd
  obtain ⟨newer, older, hl, hn, hp, -⟩ := List.filter_eq_cons_iff.mp hf
  refine ⟨newer, d, older, hl, ?_, by simpa using hp, (Prod.mk.inj ho).2, ?_⟩
  · intro e he
    simpa using hn e he
  · rw [served, hf, List.flatMap_singleton]

namespace Pipe

/-- What a write should be told, going by the pieces that readers got of it. -/
def verdict (p : Pipe) (bytes : Bytes) (pieces : List Bytes) : Except ShortWrite Nat :=
  if pieces ≠ [] ∧ pieces.flatten.length = bytes.length then .ok bytes.length
  else .error ⟨pieces.flatten.length, p.reason .write⟩

end Pipe

/-- A write of these bytes that has ended with the result, and readers had got of it what the
effects tell. It ended in the pipe `p` and has left the pipe `q` behind. -/
structure Judged (p q : Pipe) (origin : Origin) (bytes : Bytes) (es : List Effect)
    (result : Except ShortWrite Nat) : Prop where
  verdict : result = p.verdict bytes (served origin es)
  received : (served origin es).flatten <+: bytes
  failed : ∀ short, result = .error short →
    p.closed = true ∧ (short.written < bytes.length ∨ bytes = [] ∧ short.written = 0)
  unplaced : (∀ e ∈ placed es, e.1 ≠ origin) →
    served origin es = [] ∧ result = .error ⟨0, p.reason .write⟩
  gone : ∀ b, q.parcel = some b → b.origin ≠ origin

theorem Delivery.Complete.verdict {d : Delivery} (h : d.Complete) (p : Pipe) :
    p.verdict d.bytes d.pieces = .ok d.bytes.length := by
  obtain ⟨-, hm, hr⟩ := h
  have hl : d.pieces.flatten.length = d.bytes.length := congrArg List.length hr
  exact if_pos ⟨hm, hl⟩

theorem Parcel.Sound.short {b : Parcel} (h : b.Sound) (hf : b.finished = false) :
    b.passed < b.bytes.length ∨ b.bytes = [] ∧ b.passed = 0 := by
  have hle := h.passed_le
  by_cases hp : b.passed = 0
  · cases hb : b.bytes with
    | nil => exact .inr ⟨rfl, hp⟩
    | cons x xs => exact .inl (by simp [hp])
  · have hm := h.met_of_passed hp
    have hr : b.rest ≠ [] := by simpa [Parcel.finished, hm] using hf
    have := List.length_pos_iff.mpr hr
    simp only [Parcel.rest, List.length_drop] at this
    omega

theorem Delivery.Holds.verdict {d : Delivery} {b : Parcel} (h : d.Holds b) (hs : b.Sound)
    (hf : b.finished = false) (p : Pipe) :
    p.verdict d.bytes d.pieces = .error ⟨b.passed, p.reason .write⟩ := by
  have hl : d.pieces.flatten.length = b.passed := by
    rw [← Delivery.received, h.received, List.length_take, Nat.min_eq_left hs.passed_le]
  rw [Pipe.verdict, if_neg, hl]
  rintro ⟨hp, he⟩
  rw [hl, h.bytes] at he
  have hm : b.met = true := by
    cases hm : b.met with
    | true => rfl
    | false => exact absurd (h.unmet.mpr hm) hp
  simp [Parcel.finished, Parcel.rest, hm, he] at hf

namespace Judged

variable {p q : Pipe} {origin : Origin} {es : List Effect}

theorem of_complete {d : Delivery} (hp : (origin, d.bytes) ∈ placed es)
    (hd : served origin es = d.pieces) (h : d.Complete)
    (hg : ∀ b, q.parcel = some b → b.origin ≠ origin) :
    Judged p q origin d.bytes es (.ok d.bytes.length) where
  verdict := by rw [hd, h.verdict]
  received := by
    rw [hd]
    exact h.2.2 ▸ List.prefix_refl _
  failed := by simp
  unplaced hn := absurd rfl (hn _ hp)
  gone := hg

theorem of_short {d : Delivery} (hp : (origin, d.bytes) ∈ placed es)
    (hd : served origin es = d.pieces) {b : Parcel} (h : d.Holds b) (hs : b.Sound)
    (hf : b.finished = false) (hc : p.closed = true)
    (hg : ∀ b, q.parcel = some b → b.origin ≠ origin) :
    Judged p q origin d.bytes es (.error ⟨b.passed, p.reason .write⟩) where
  verdict := by rw [hd, h.verdict hs hf]
  received := by
    rw [hd, ← Delivery.received, h.received, h.bytes]
    exact List.take_prefix _ _
  failed short hshort := by
    obtain rfl := Except.error.inj hshort
    exact ⟨hc, h.bytes ▸ hs.short hf⟩
  unplaced hn := absurd rfl (hn _ hp)
  gone := hg

theorem of_unplaced {bytes : Bytes}
    (hp : (placed es).filter (·.1 = origin) = []) (hc : p.closed = true)
    (hg : ∀ b, q.parcel = some b → b.origin ≠ origin) :
    Judged p q origin bytes es (.error ⟨0, p.reason .write⟩) where
  verdict := by
    simp [Pipe.verdict, served_of_unplaced hp]
  received := by
    rw [served_of_unplaced hp]
    exact List.nil_prefix
  failed short hs := by
    obtain rfl := Except.error.inj hs
    refine ⟨hc, ?_⟩
    cases bytes with
    | nil => exact .inr ⟨rfl, rfl⟩
    | cons x xs => exact .inl (Nat.succ_pos _)
  unplaced _ := ⟨served_of_unplaced hp, rfl⟩
  gone := hg

end Judged

end Handoff
