import Handoff.Proofs.Custody

/-!
What becomes of each write, told from the effects of a run: which bytes readers got of it, and how
it left the pipe.
-/

namespace Handoff

structure Delivery where
  origin : Origin
  bytes : Bytes
  pieces : List Bytes := []
  cancelled : Bool := false
  /-- How many bytes had gone when its writer took it out. -/
  vacated : Option Nat := none

namespace Delivery

def received (d : Delivery) : Bytes :=
  d.pieces.flatten

def Complete (d : Delivery) : Prop :=
  d.cancelled = false ∧ d.pieces ≠ [] ∧ d.received = d.bytes

def Recalled (d : Delivery) : Prop :=
  d.cancelled = true ∧ (∃ stamp, d.origin = .copied stamp) ∧ d.pieces = []

def Cut (d : Delivery) : Prop :=
  d.cancelled = false ∧ d.vacated = some d.received.length ∧ d.received <+: d.bytes

structure Holds (d : Delivery) (b : Parcel) : Prop where
  origin : d.origin = b.origin
  bytes : d.bytes = b.bytes
  standing : d.cancelled = false
  received : d.received = b.bytes.take b.passed
  unmet : d.pieces = [] ↔ b.met = false

end Delivery

/-- Effects on the writes so far, the latest write first. -/
def record (ds : List Delivery) : Effect → List Delivery
  | .placed origin bytes => { origin, bytes } :: ds
  | .handed _ bytes => ds.modifyHead fun d => { d with pieces := d.pieces ++ [bytes] }
  | .vacated passed => ds.modifyHead fun d => { d with vacated := some passed }
  | .logged (.withdrawn _) => ds.modifyHead fun d => { d with cancelled := true }
  | _ => ds

def ledger (effects : List Effect) : List Delivery :=
  effects.foldl record []

@[simp] theorem foldl_record_announce (p : Pipe) (ds : List Delivery) :
    p.announce.effects.foldl record ds = ds := by
  have hw : ∀ ws : List Waker, (ws.map Effect.woke).foldl record ds = ds := by
    intro ws
    induction ws with
    | nil => rfl
    | cons w ws ih => exact ih
  exact hw _

theorem foldl_record_log {log : List Effect} (h : ∀ e ∈ log, ∃ count, e = .logged (.consumed count))
    (ds : List Delivery) : log.foldl record ds = ds := by
  induction log with
  | nil => rfl
  | cons e log ih =>
    obtain ⟨count, rfl⟩ := h e List.mem_cons_self
    exact ih fun e he => h e (List.mem_cons_of_mem _ he)

theorem ledger_append (es fs : List Effect) : ledger (es ++ fs) = fs.foldl record (ledger es) :=
  List.foldl_append

theorem record_ne_nil {ds : List Delivery} (h : ds ≠ []) (e : Effect) : record ds e ≠ [] := by
  unfold record
  split <;> simp [h]

theorem pieces_record {ds : List Delivery} {e : Effect} (h : ds ≠ [] ∨ e.handed? = none) :
    (record ds e).reverse.flatMap Delivery.pieces =
      ds.reverse.flatMap Delivery.pieces ++ e.handed?.toList := by
  unfold record
  split
  · simp [Effect.handed?]
  · cases ds with
    | nil => simp [Effect.handed?] at h
    | cons d rest => simp [Effect.handed?]
  · cases ds <;> simp [Effect.handed?]
  · cases ds <;> simp [Effect.handed?]
  · rename_i hh _ _
    have he : e.handed? = none := by
      cases e with
      | handed room bytes => exact absurd rfl (hh room bytes)
      | _ => rfl
    simp [he]

theorem pieces_foldl_record {ds : List Delivery} {es : List Effect} (h : ds ≠ [] ∨ handed es = []) :
    (es.foldl record ds).reverse.flatMap Delivery.pieces =
      ds.reverse.flatMap Delivery.pieces ++ handed es := by
  induction es generalizing ds with
  | nil => simp [handed]
  | cons e es ih =>
    have hc : handed (e :: es) = e.handed?.toList ++ handed es := by
      cases he : e.handed? <;> simp [handed, he]
    rw [List.foldl_cons, ih, pieces_record, List.append_assoc, hc]
    · apply h.imp_right
      intro hn
      rw [hc, List.append_eq_nil_iff] at hn
      simpa using hn.1
    · rcases h with h | h
      · exact .inl (record_ne_nil h e)
      · rw [hc, List.append_eq_nil_iff] at h
        exact .inr h.2

namespace Parcel

theorem take_append_front (b : Parcel) (room : Nat) :
    b.bytes.take b.passed ++ b.front room = b.bytes.take (b.advance room).passed := by
  have h : b.front room = (b.bytes.drop b.passed).take (b.front room).length := by
    simp [front, rest]
  rw [h, ← List.take_add]
  rfl

theorem take_of_finished {b : Parcel} (h : b.finished = true) : b.bytes.take b.passed = b.bytes := by
  have hr : b.bytes.drop b.passed = [] := by
    simp only [finished, rest, Bool.and_eq_true, List.isEmpty_iff] at h
    exact h.2
  rw [← List.take_append_drop b.passed b.bytes, hr, List.append_nil, List.take_take, Nat.min_self]

end Parcel

theorem Delivery.Holds.complete {d : Delivery} {b : Parcel} (h : d.Holds b)
    (hf : b.finished = true) : d.Complete := by
  refine ⟨h.standing, ?_, ?_⟩
  · intro hp
    have := h.unmet.mp hp
    simp [Parcel.finished, this] at hf
  · rw [h.received, h.bytes, Parcel.take_of_finished hf]

theorem Delivery.Holds.hand {d : Delivery} {b : Parcel} (h : d.Holds b) (room : Nat) :
    { d with pieces := d.pieces ++ [b.front room] }.Holds (b.advance room) where
  origin := h.origin
  bytes := h.bytes
  standing := h.standing
  received := by
    have hr : { d with pieces := d.pieces ++ [b.front room] }.received = d.received ++ b.front room := by
      simp [Delivery.received]
    rw [hr, h.received]
    exact b.take_append_front room
  unmet := by simp [Parcel.advance]

/-- The latest write is the one in the pipe, if any is, and all others have left it. -/
structure Accounts (ds : List Delivery) (p : Pipe) : Prop where
  older : ∀ d ∈ ds.tail, d.Complete ∨ d.Recalled
  held : ∀ b, p.parcel = some b → ∃ d, ds.head? = some d ∧ d.Holds b
  latest : p.parcel = none → ∀ d, ds.head? = some d →
    d.Complete ∨ d.Recalled ∨ p.closed = true ∧ d.Cut

namespace Accounts

variable {ds : List Delivery} {p q : Pipe} {b : Parcel}

theorem cons_of_parcel (h : Accounts ds p) (hb : p.parcel = some b) :
    ∃ d rest, ds = d :: rest ∧ d.Holds b ∧ ∀ e ∈ rest, e.Complete ∨ e.Recalled := by
  obtain ⟨d, hd, hold⟩ := h.held b hb
  cases ds with
  | nil => simp at hd
  | cons e rest =>
    obtain rfl := Option.some.inj hd
    exact ⟨e, rest, rfl, hold, h.older⟩

theorem congr (h : Accounts ds p) (hp : q.parcel = p.parcel) (hc : p.closed = true → q.closed = true) :
    Accounts ds q where
  older := h.older
  held b hb := h.held b (hp ▸ hb)
  latest hn d hd := by
    refine (h.latest (hp ▸ hn) d hd).imp_right (Or.imp_right ?_)
    exact fun ⟨hcl, hcut⟩ => ⟨hc hcl, hcut⟩

theorem place (h : Accounts ds p) (hp : p.parcel = none) (hc : p.closed = false) (origin : Origin)
    (bytes : Bytes) :
    Accounts ((p.place origin bytes).effects.foldl record ds) (p.place origin bytes).state := by
  have he : (p.place origin bytes).effects.foldl record ds = { origin, bytes } :: ds :=
    foldl_record_announce _ _
  rw [he]
  constructor
  · intro d hd
    cases ds with
    | nil => simp at hd
    | cons e rest =>
      -- A write cut short stays the latest, for nothing enters a closed pipe.
      rcases List.mem_cons.mp hd with rfl | hd
      · rcases h.latest hp d rfl with hd | hd | ⟨hcl, -⟩
        · exact .inl hd
        · exact .inr hd
        · simp [hc] at hcl
      · exact h.older d hd
  · intro b hb
    obtain rfl := Option.some.inj hb
    refine ⟨_, rfl, rfl, rfl, rfl, ?_, ?_⟩
    · simp [Delivery.received, Parcel.fresh]
    · simp [Parcel.fresh]
  · intro hn
    simp [Pipe.place, Pipe.announce] at hn

theorem hand (h : Accounts ds p) (hb : p.parcel = some b) (room : Nat) :
    Accounts ((.handed room (b.front room) :: (p.advance b room).announce.effects).foldl record ds)
      (p.advance b room).announce.state := by
  obtain ⟨d, rest, rfl, hd, hrest⟩ := h.cons_of_parcel hb
  rw [List.foldl_cons, foldl_record_announce]
  have hnew := hd.hand room
  unfold Pipe.advance
  split
  · rename_i hl
    have hf : (b.advance room).finished = true := (Bool.and_eq_true_iff.mp hl).1
    refine ⟨hrest, by simp, ?_⟩
    intro _ e he
    obtain rfl := Option.some.inj he
    exact .inl (hnew.complete hf)
  · refine ⟨hrest, ?_, by simp⟩
    intro c hc
    obtain rfl := Option.some.inj hc
    exact ⟨_, rfl, hnew⟩

theorem vacate (h : Accounts ds p) (hb : p.parcel = some b) (hs : b.Sound)
    (hf : b.finished = true ∨ p.closed = true) :
    Accounts (p.vacate.effects.foldl record ds) p.vacate.state := by
  obtain ⟨d, rest, rfl, hd, hrest⟩ := h.cons_of_parcel hb
  have he : p.vacate.effects.foldl record (d :: rest) = { d with vacated := some b.passed } :: rest := by
    simp only [Pipe.vacate, hb, Option.map_some, Option.getD_some, Step.effects_after, Step.effects_map,
      List.foldl_append, foldl_record_announce]
    rfl
  rw [he]
  refine ⟨hrest, by simp [Pipe.vacate, Pipe.announce], ?_⟩
  intro _ e heq
  obtain rfl := Option.some.inj heq
  rcases hf with hf | hc
  · exact .inl (hd.complete hf)
  · refine .inr (.inr ⟨hc, hd.standing, ?_, ?_⟩)
    · have hr : { d with vacated := some b.passed }.received = d.received := rfl
      rw [hr, hd.received, List.length_take, Nat.min_eq_left hs.passed_le]
    · have hp : d.received <+: b.bytes := hd.received ▸ List.take_prefix _ _
      exact hd.bytes ▸ hp

theorem retract (h : Accounts ds p) (hb : p.parcel = some b) {stamp : UInt64}
    (ho : b.origin = .copied stamp) (hm : b.met = false) (count : Nat) :
    Accounts ((.logged (.withdrawn count) :: p.vacate.effects).foldl record ds) p.vacate.state := by
  obtain ⟨d, rest, rfl, hd, hrest⟩ := h.cons_of_parcel hb
  have he : (.logged (.withdrawn count) :: p.vacate.effects).foldl record (d :: rest) =
      { d with cancelled := true, vacated := some b.passed } :: rest := by
    simp only [Pipe.vacate, hb, Option.map_some, Option.getD_some, Step.effects_after, Step.effects_map,
      List.foldl_cons, List.foldl_append, foldl_record_announce]
    rfl
  rw [he]
  refine ⟨hrest, by simp [Pipe.vacate, Pipe.announce], ?_⟩
  intro _ e heq
  obtain rfl := Option.some.inj heq
  exact .inr (.inl ⟨rfl, ⟨stamp, hd.origin.trans ho⟩, hd.unmet.mpr hm⟩)

end Accounts

theorem Pipe.parcel_of_carries {p : Pipe} {stamp : UInt64} (h : p.carries stamp = true) :
    ∃ b, p.parcel = some b ∧ b.origin = .copied stamp := by
  obtain ⟨b, hb, hs⟩ := Option.any_eq_true _ _ |>.mp h
  refine ⟨b, hb, ?_⟩
  cases ho : b.origin with
  | lent owner => simp [ho, Origin.stamp?] at hs
  | copied t => simpa [ho, Origin.stamp?] using hs

theorem Pipe.parcel_of_unmet {p : Pipe} {stamp : UInt64} (h : p.unmet stamp = true) :
    ∃ b, p.parcel = some b ∧ b.origin = .copied stamp ∧ b.met = false := by
  obtain ⟨b, hb, ho⟩ := parcel_of_carries (carries_of_unmet h)
  refine ⟨b, hb, ho, ?_⟩
  simpa [unmet_of_parcel hb ho] using h

theorem Channel.Change.accounts {c d : Channel} {es : List Effect} {ds : List Delivery}
    (h : c.Change es d) (hs : c.pipe.Sound) (ha : Accounts ds c.pipe) :
    Accounts (es.foldl record ds) d.pipe := by
  cases h with
  | mode | conclude | forsake => exact ha
  | close half reason =>
    have he : (c.pipe.close half reason).effects.foldl record ds = ds := by
      rw [Pipe.effects_close, List.foldl_append, foldl_record_announce]
      split <;> rfl
    rw [he]
    exact ha.congr (c.pipe.parcel_close half reason) fun _ => rfl
  | await | watch => exact ha.congr (Pipe.parcel_park ..) (Pipe.closed_park ..).trans
  | fail _ hc hcl =>
    obtain ⟨b, hb, -⟩ := Pipe.parcel_of_carries hc
    exact ha.vacate hb (hs.parcel b hb) (.inr hcl)
  | withdraw _ hu =>
    obtain ⟨b, hb, ho, hm⟩ := Pipe.parcel_of_unmet hu
    exact ha.retract hb ho hm _
  | stage slice _ hc hf =>
    have hp : c.pipe.parcel = none := by simpa [hf] using hs.occupied_eq
    have hq : Accounts ds { c.pipe with nextStamp := c.pipe.nextStamp + 1 } := ha.congr rfl id
    exact hq.place hp hc _ slice.bytes

theorem Channel.Changes.accounts {c d : Channel} {es : List Effect} {ds : List Delivery}
    (h : c.Changes es d) (hs : c.pipe.Sound) (ha : Accounts ds c.pipe) :
    Accounts (es.foldl record ds) d.pipe := by
  induction h generalizing ds with
  | nil => exact ha
  | cons h _ ih =>
    rw [List.foldl_append]
    exact ih (h.sound hs) (h.accounts hs ha)

theorem Section.accounts {owner : Nat} {lent left : Option Bytes} {c d : Channel} {es : List Effect}
    {ds : List Delivery} (h : Section owner lent c es d left) (hs : c.pipe.Sound)
    (hl : lent ≠ none → c.pipe.parcel ≠ none) (ha : Accounts ds c.pipe) :
    Accounts (es.foldl record ds) d.pipe := by
  cases h with
  | pull room _ hb => exact ha.hand (Pipe.available_eq_some hb).1 room
  | enter bytes hc ho =>
    have hp : c.pipe.parcel = none := by simpa [ho] using hs.occupied_eq
    exact ha.place hp hc _ bytes
  | leave bytes hlv he =>
    obtain ⟨b, hb⟩ := Option.ne_none_iff_exists'.mp (hl (by simp))
    have hv := ha.vacate hb (hs.parcel b hb) (by simpa [Pipe.leavable, Pipe.consumed, hb] using hlv)
    rw [List.foldl_append, foldl_record_log he]
    exact hv
  | other h => exact h.accounts hs ha

theorem Run.accounts {settings : Settings} {deeds : List Deed} {l : Link}
    (run : Run (.opened settings) deeds l) : Accounts (ledger (effects deeds)) l.channel.pipe := by
  induction run with
  | start =>
    refine ⟨?_, ?_, ?_⟩
    · simp [effects, ledger]
    · simp [Link.opened, Settings.opened]
    · simp [effects, ledger]
  | @next _ m _ _ run h ih =>
    have hr : m.Reachable := ⟨settings, _, run⟩
    obtain ⟨owner, lent, left, hsec, -, hown⟩ := hr.section h
    rw [effects_concat, ledger_append]
    apply hsec.accounts hr.sound _ ih
    intro hl hp
    obtain ⟨bytes, hb⟩ := Option.ne_none_iff_exists'.mp hl
    obtain ⟨b, hb, -⟩ := Pipe.loan_eq_some.mp (hown bytes hb).2.1
    simp [hp] at hb

theorem Run.pieces {settings : Settings} {deeds : List Deed} {l : Link}
    (run : Run (.opened settings) deeds l) :
    handed (effects deeds) = (ledger (effects deeds)).reverse.flatMap Delivery.pieces := by
  induction run with
  | start => rfl
  | @next deeds m _ _ run h ih =>
    obtain ⟨owner, lent, left, hsec⟩ := Link.section_of_move h
    rw [effects_concat, ledger_append, handed_append, ih]
    symm
    apply pieces_foldl_record
    rcases hsec.handed_cases with he | ⟨b, room, hp, -, -⟩
    · exact .inr he
    · obtain ⟨d, rest, hd, -⟩ := run.accounts.cons_of_parcel hp
      exact .inl (by simp [hd])

theorem Delivery.received_of_left {w : Delivery} (h : w.Complete ∨ w.Recalled) :
    w.received <+: w.bytes := by
  rcases h with ⟨-, -, h⟩ | ⟨-, -, h⟩
  · exact h ▸ List.prefix_refl _
  · rw [Delivery.received, h]
    exact List.nil_prefix

theorem Accounts.received {ds : List Delivery} {p : Pipe} (h : Accounts ds p) {w : Delivery}
    (hw : w ∈ ds) : w.received <+: w.bytes := by
  cases ds with
  | nil => simp at hw
  | cons d rest =>
    rcases List.mem_cons.mp hw with rfl | hw
    · cases hp : p.parcel with
      | some b =>
        obtain ⟨d, hd, hold⟩ := h.held b hp
        obtain rfl := Option.some.inj hd
        rw [hold.received, hold.bytes]
        exact List.take_prefix _ _
      | none =>
        rcases h.latest hp w rfl with hc | hr | ⟨-, -, -, hcut⟩
        · exact Delivery.received_of_left (.inl hc)
        · exact Delivery.received_of_left (.inr hr)
        · exact hcut
    · exact Delivery.received_of_left (h.older w hw)

end Handoff
