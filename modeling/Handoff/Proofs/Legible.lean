import Handoff.Text.Outline

/-!
What a structural text shows can be read off it again. Names are made of letters and digits, a quote stands
in a quoted text only behind a backslash, and whatever follows a name tells where it ends.
-/

namespace Handoff.Text

theorem isAlphanum_of_mem_toDigits {b n : Nat} (hb : 1 < b) (hb' : b ≤ 16) {c : Char}
    (hc : c ∈ Nat.toDigits b n) : c.isAlphanum = true := by
  have hdigit : ∀ d < 16, (Nat.digitChar d).isAlphanum = true := by decide
  induction n using Nat.strongRecOn with
  | ind n ih =>
    rw [Nat.toDigits_eq_if hb] at hc
    split at hc
    · obtain rfl := List.mem_singleton.mp hc
      exact hdigit n (by omega)
    · rcases List.mem_append.mp hc with hc | hc
      · exact ih (n / b) (Nat.div_lt_self (by omega) hb) hc
      · obtain rfl := List.mem_singleton.mp hc
        exact hdigit (n % b) (Nat.lt_of_lt_of_le (Nat.mod_lt n (by omega)) hb')

theorem digitChar_inj {m n : Nat} (hm : m < 16) (hn : n < 16) (h : m.digitChar = n.digitChar) : m = n := by
  have hall : ∀ i < 16, ∀ j < 16, Nat.digitChar i = Nat.digitChar j → i = j := by decide
  exact hall m hm n hn h

theorem toDigits_inj {b m n : Nat} (hb : 1 < b) (hb' : b ≤ 16)
    (h : Nat.toDigits b m = Nat.toDigits b n) : m = n := by
  induction m using Nat.strongRecOn generalizing n with
  | ind m ih =>
    have hdigit (k : Nat) : k % b < 16 := Nat.lt_of_lt_of_le (Nat.mod_lt k (by omega)) hb'
    -- A number below the base has one digit, and any other has more.
    have hlen {k j : Nat} (hk : k < b) (hj : ¬ j < b) : Nat.toDigits b k ≠ Nat.toDigits b j := by
      intro he
      rw [Nat.toDigits_of_lt_base hk, Nat.toDigits_of_base_le hb (Nat.le_of_not_lt hj)] at he
      exact Nat.toDigits_ne_nil (List.append_eq_singleton_iff.mp he.symm |>.resolve_right (by simp)).1
    by_cases hm : m < b
    · by_cases hn : n < b
      · rw [Nat.toDigits_of_lt_base hm, Nat.toDigits_of_lt_base hn] at h
        exact digitChar_inj (by omega) (by omega) (List.singleton_inj.mp h)
      · exact absurd h (hlen hm hn)
    · by_cases hn : n < b
      · exact absurd h.symm (hlen hn hm)
      · rw [Nat.toDigits_of_base_le hb (Nat.le_of_not_lt hm),
          Nat.toDigits_of_base_le hb (Nat.le_of_not_lt hn)] at h
        obtain ⟨hfront, hlast⟩ := List.append_inj' h rfl
        have hdiv : m / b = n / b := ih (m / b) (Nat.div_lt_self (by omega) hb) hfront
        have hmod : m % b = n % b := digitChar_inj (hdigit m) (hdigit n) (List.singleton_inj.mp hlast)
        rw [← Nat.div_add_mod m b, ← Nat.div_add_mod n b, hdiv, hmod]

/-- The rest begins with no letter or digit, so that a name before it ends there. -/
def Parts (rest : List Char) : Prop :=
  rest.head?.any Char.isAlphanum = false

theorem parts_cons {c : Char} (hc : c.isAlphanum = false) (rest : List Char) : Parts (c :: rest) :=
  hc

theorem Parts.takeWhile {rest : List Char} (h : Parts rest) : rest.takeWhile Char.isAlphanum = [] := by
  cases rest with
  | nil => rfl
  | cons c rest => exact List.takeWhile_cons_of_neg (by simpa [Parts] using h)

theorem name_append_inj {xs ys x y : List Char} (hxs : ∀ c ∈ xs, c.isAlphanum = true)
    (hys : ∀ c ∈ ys, c.isAlphanum = true) (hx : Parts x) (hy : Parts y) (h : xs ++ x = ys ++ y) :
    xs = ys ∧ x = y := by
  have ht := congrArg (List.takeWhile Char.isAlphanum) h
  rw [List.takeWhile_append_of_pos hxs, List.takeWhile_append_of_pos hys, hx.takeWhile, hy.takeWhile,
    List.append_nil, List.append_nil] at ht
  subst ht
  exact ⟨rfl, List.append_cancel_left h⟩

/-- The character that a backslash with this one stands for. -/
def unescaped : Char → Char
  | '0' => '\x00'
  | 't' => '\t'
  | 'n' => '\n'
  | 'r' => '\r'
  | c => c

theorem escaped_cases (c : Char) :
    (∃ mark, mark ≠ 'u' ∧ escaped c = ['\\', mark] ∧ unescaped mark = c) ∨
      (c ≠ '"' ∧ c ≠ '\\' ∧ escaped c = [c]) ∨
        escaped c = '\\' :: 'u' :: '{' :: (Nat.toDigits 16 c.toNat ++ ['}']) := by
  unfold escaped
  split
  · exact .inl ⟨'0', by decide, rfl, rfl⟩
  · exact .inl ⟨'t', by decide, rfl, rfl⟩
  · exact .inl ⟨'n', by decide, rfl, rfl⟩
  · exact .inl ⟨'r', by decide, rfl, rfl⟩
  · exact .inl ⟨'"', by decide, rfl, rfl⟩
  · exact .inl ⟨'\\', by decide, rfl, rfl⟩
  · rename_i hquote hslash
    split
    · exact .inr (.inl ⟨hquote, hslash, rfl⟩)
    · exact .inr (.inr rfl)

theorem escaped_append_ne_quote (c : Char) (x y : List Char) : escaped c ++ x ≠ '"' :: y := by
  rcases escaped_cases c with ⟨mark, -, he, -⟩ | ⟨hc, -, he⟩ | he
  · simp [he]
  · simp [he, hc]
  · simp [he]

theorem escaped_append_inj {c d : Char} {x y : List Char} (h : escaped c ++ x = escaped d ++ y) :
    c = d ∧ x = y := by
  rcases escaped_cases c with ⟨m, hm, hc, hcm⟩ | ⟨-, hcs, hc⟩ | hc
  · rcases escaped_cases d with ⟨n, -, hd, hdn⟩ | ⟨-, hds, hd⟩ | hd
    · obtain ⟨rfl, rfl⟩ : m = n ∧ x = y := by simpa [hc, hd] using h
      exact ⟨hcm.symm.trans hdn, rfl⟩
    · simp [hc, hd, hds.symm] at h
    · simp [hc, hd, hm] at h
  · rcases escaped_cases d with ⟨n, -, hd, -⟩ | ⟨-, -, hd⟩ | hd
    · simp [hc, hd, hcs] at h
    · simpa [hc, hd] using h
    · simp [hc, hd, hcs] at h
  · rcases escaped_cases d with ⟨n, hn, hd, -⟩ | ⟨-, hds, hd⟩ | hd
    · simp [hc, hd, hn.symm] at h
    · simp [hc, hd, hds.symm] at h
    · have hdigits : Nat.toDigits 16 c.toNat ++ '}' :: x = Nat.toDigits 16 d.toNat ++ '}' :: y := by
        simpa [hc, hd] using h
      have hall (n : Nat) : ∀ c ∈ Nat.toDigits 16 n, c.isAlphanum = true :=
        fun _ => isAlphanum_of_mem_toDigits (by decide) (by decide)
      obtain ⟨hcode, hrest⟩ := name_append_inj (hall _) (hall _) (parts_cons rfl _) (parts_cons rfl _) hdigits
      exact ⟨Char.toNat_inj.mp (toDigits_inj (by decide) (by decide) hcode), List.tail_eq_of_cons_eq hrest⟩

theorem quoted_append_inj {s t x y : List Char} (h : quoted s ++ x = quoted t ++ y) : s = t ∧ x = y := by
  simp only [quoted, List.cons_append, List.append_assoc, List.nil_append, List.cons.injEq, true_and] at h
  induction s generalizing t with
  | nil =>
    cases t with
    | nil => exact ⟨rfl, List.tail_eq_of_cons_eq h⟩
    | cons d t =>
      rw [List.flatMap_cons, List.append_assoc] at h
      exact absurd h.symm (escaped_append_ne_quote d _ _)
  | cons c s ih =>
    rw [List.flatMap_cons, List.append_assoc] at h
    cases t with
    | nil => exact absurd h (escaped_append_ne_quote c _ _)
    | cons d t =>
      rw [List.flatMap_cons, List.append_assoc] at h
      obtain ⟨rfl, hrest⟩ := escaped_append_inj h
      obtain ⟨rfl, hxy⟩ := ih hrest
      exact ⟨rfl, hxy⟩

def Bare (text : String) : Prop :=
  ∀ c ∈ text.toList, c.isAlphanum = true

instance (text : String) : Decidable (Bare text) :=
  List.decidableBAll _ _

theorem Bare.append_inj {s t : String} (hs : Bare s) (ht : Bare t) {c : Char} (hc : c.isAlphanum = false)
    {x y : List Char} (h : s.toList ++ c :: x = t.toList ++ c :: y) : s = t ∧ x = y := by
  obtain ⟨hname, hrest⟩ := name_append_inj hs ht (parts_cons hc x) (parts_cons hc y) h
  exact ⟨String.toList_inj.mp hname, List.tail_eq_of_cons_eq hrest⟩

/-- What may come after an item: nothing, or the end of what it is an item of. -/
inductive Ends : List Char → Prop
  | nothing : Ends []
  | tuple (rest : List Char) : Ends (')' :: rest)
  | record (rest : List Char) : Ends (' ' :: '}' :: rest)

namespace Outline

/-- Quoted texts may hold anything, but all other texts are bare. -/
def Plain : Outline → Prop
  | word text => Bare text
  | quote _ => True
  | tuple name item => Bare name ∧ item.Plain
  | record name words label item =>
    Bare name ∧ (∀ w ∈ words, Bare w.1 ∧ Bare w.2) ∧ Bare label ∧ item.Plain

def name : Outline → String
  | word text => text
  | quote _ => ""
  | tuple name _ => name
  | record name _ _ _ => name

def entries (words : List (String × String)) : List Char :=
  words.flatMap fun w => w.1.toList ++ ": ".toList ++ w.2.toList ++ ", ".toList

/-- What is shown after the name. -/
def body : Outline → List Char
  | word _ => []
  | quote text => quoted text.toList
  | tuple _ item => '(' :: (item.flat ++ [')'])
  | record _ words label item =>
    ' ' :: '{' :: ' ' :: (entries words ++ label.toList ++ ':' :: ' ' :: (item.flat ++ [' ', '}']))

theorem flat_eq (o : Outline) : o.flat = o.name.toList ++ o.body := by
  cases o <;> simp [flat, name, body, entries]

theorem Plain.name {o : Outline} (h : o.Plain) : Bare o.name := by
  cases o with
  | word => exact h
  | quote => exact fun _ hc => by simp [Outline.name] at hc
  | tuple => exact h.1
  | record => exact h.1

theorem parts_body (o : Outline) {rest : List Char} (h : Ends rest) : Parts (o.body ++ rest) := by
  cases o with
  | word => cases h <;> rfl
  | quote | tuple | record => rfl

theorem name_inj {a b : Outline} (ha : a.Plain) (hb : b.Plain) {x y : List Char} (hx : Ends x) (hy : Ends y)
    (h : a.flat ++ x = b.flat ++ y) : a.name = b.name ∧ a.body ++ x = b.body ++ y := by
  rw [flat_eq, flat_eq, List.append_assoc, List.append_assoc] at h
  obtain ⟨hname, hbody⟩ := name_append_inj ha.name hb.name (a.parts_body hx) (b.parts_body hy) h
  exact ⟨String.toList_inj.mp hname, hbody⟩

/-- The last field of a record is no plain word with a comma behind it. -/
theorem flat_append_ne_entry {o : Outline} (ho : o.Plain) {w : String} (hw : Bare w) (x y : List Char) :
    o.flat ++ ' ' :: '}' :: x ≠ w.toList ++ ',' :: y := by
  intro h
  rw [flat_eq, List.append_assoc] at h
  obtain ⟨-, hbody⟩ := name_append_inj ho.name hw (o.parts_body (.record x)) (parts_cons rfl y) h
  cases o <;> simp [body, quoted] at hbody

theorem entries_cons_append (w : String × String) (ws : List (String × String)) (x : List Char) :
    entries (w :: ws) ++ x =
      w.1.toList ++ ':' :: ' ' :: (w.2.toList ++ ',' :: ' ' :: (entries ws ++ x)) := by
  simp [entries]

theorem entries_append_inj {ws vs : List (String × String)} {k l : String} {i j : Outline}
    (hws : ∀ w ∈ ws, Bare w.1 ∧ Bare w.2) (hvs : ∀ v ∈ vs, Bare v.1 ∧ Bare v.2) (hk : Bare k) (hl : Bare l)
    (hi : i.Plain) (hj : j.Plain) {x y : List Char}
    (h : entries ws ++ (k.toList ++ ':' :: ' ' :: (i.flat ++ ' ' :: '}' :: x)) =
      entries vs ++ (l.toList ++ ':' :: ' ' :: (j.flat ++ ' ' :: '}' :: y))) :
    ws = vs ∧ k = l ∧ i.flat ++ ' ' :: '}' :: x = j.flat ++ ' ' :: '}' :: y := by
  induction ws generalizing vs with
  | nil =>
    cases vs with
    | nil =>
      obtain ⟨rfl, hitem⟩ := hk.append_inj hl rfl h
      exact ⟨rfl, rfl, List.tail_eq_of_cons_eq hitem⟩
    | cons v vs =>
      obtain ⟨hv, -⟩ := List.forall_mem_cons.mp hvs
      rw [entries_cons_append] at h
      obtain ⟨-, hitem⟩ := hk.append_inj hv.1 rfl h
      exact absurd (List.tail_eq_of_cons_eq hitem) (flat_append_ne_entry hi hv.2 _ _)
  | cons w ws ih =>
    obtain ⟨hw, hws⟩ := List.forall_mem_cons.mp hws
    rw [entries_cons_append] at h
    cases vs with
    | nil =>
      obtain ⟨-, hitem⟩ := hw.1.append_inj hl rfl h
      exact absurd (List.tail_eq_of_cons_eq hitem).symm (flat_append_ne_entry hj hw.2 _ _)
    | cons v vs =>
      obtain ⟨hv, hvs⟩ := List.forall_mem_cons.mp hvs
      rw [entries_cons_append] at h
      obtain ⟨hlabel, hword⟩ := hw.1.append_inj hv.1 rfl h
      obtain ⟨htext, hrest⟩ := hw.2.append_inj hv.2 rfl (List.tail_eq_of_cons_eq hword)
      obtain ⟨rfl, hkl, hitem⟩ := ih hws hvs (List.tail_eq_of_cons_eq hrest)
      exact ⟨by rw [Prod.ext hlabel htext], hkl, hitem⟩

theorem flat_append_inj {a b : Outline} (ha : a.Plain) (hb : b.Plain) {x y : List Char} (hx : Ends x)
    (hy : Ends y) (h : a.flat ++ x = b.flat ++ y) : a = b ∧ x = y := by
  induction a generalizing b x y with
  | word text =>
    obtain ⟨hname, hbody⟩ := name_inj ha hb hx hy h
    cases b with
    | word other => exact ⟨congrArg word hname, hbody⟩
    | quote | tuple | record => cases hx <;> simp [body, quoted] at hbody
  | quote text =>
    obtain ⟨-, hbody⟩ := name_inj ha hb hx hy h
    cases b with
    | quote other =>
      obtain ⟨htext, hrest⟩ := quoted_append_inj hbody
      exact ⟨congrArg quote (String.toList_inj.mp htext), hrest⟩
    | word => cases hy <;> simp [body, quoted] at hbody
    | tuple | record => simp [body, quoted] at hbody
  | tuple name item ih =>
    obtain ⟨hname, hbody⟩ := name_inj ha hb hx hy h
    cases b with
    | tuple other inner =>
      obtain rfl : name = other := hname
      obtain ⟨rfl, hrest⟩ := ih ha.2 hb.2 (.tuple x) (.tuple y) (by simpa [body] using hbody)
      exact ⟨rfl, List.tail_eq_of_cons_eq hrest⟩
    | word => cases hy <;> simp [body] at hbody
    | quote | record => simp [body, quoted] at hbody
  | record name words label item ih =>
    obtain ⟨hname, hbody⟩ := name_inj ha hb hx hy h
    cases b with
    | record other more tag inner =>
      obtain ⟨-, hwords, hlabel, hitem⟩ := ha
      obtain ⟨-, hmore, htag, hinner⟩ := hb
      obtain rfl : name = other := hname
      obtain ⟨rfl, rfl, hflat⟩ := entries_append_inj hwords hmore hlabel htag hitem hinner
        (by simpa [body] using hbody)
      obtain ⟨rfl, hrest⟩ := ih hitem hinner (.record x) (.record y) hflat
      exact ⟨rfl, by simpa using hrest⟩
    | word => cases hy <;> simp [body] at hbody
    | quote | tuple => simp [body, quoted] at hbody

theorem line_inj {a b : Outline} (ha : a.Plain) (hb : b.Plain) : a.line = b.line ↔ a = b := by
  constructor
  · intro h
    have hflat : a.flat ++ [] = b.flat ++ [] := by simpa using String.ofList_injective h
    exact (flat_append_inj ha hb .nothing .nothing hflat).1
  · rintro rfl
    rfl

end Outline

end Handoff.Text
