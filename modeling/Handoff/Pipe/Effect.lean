/-!
What one indivisible step on a pipe leaves behind: an answer, the next state, and the effects in
the order in which they took place.
-/

namespace Handoff

abbrev Bytes := List UInt8

inductive Half
  | read
  | write
  deriving DecidableEq, Repr

namespace Half

def other : Half → Half
  | read => write
  | write => read

def name : Half → String
  | read => "read"
  | write => "write"

end Half

/-- A waker is known by its name alone. The silent one can be woken without anyone hearing it. -/
inductive Waker
  | silent
  | named (name : String)
  deriving DecidableEq, Repr

inductive Entry
  | consumed (count : Nat)
  | withdrawn (count : Nat)
  | closed (half : Half)
  deriving DecidableEq, Repr

def Entry.line : Entry → String
  | consumed count => "TRACE write of " ++ toString count ++ " bytes consumed"
  | withdrawn count => "TRACE withdrawing cancelled write of " ++ toString count ++ " bytes"
  | closed half => "DEBUG pipe closed from the " ++ half.name ++ " half"

/-- Whose bytes are in the pipe. A blocked write lends its own and is known by the thread it
blocks; a polled write leaves a copy, known by its stamp. -/
inductive Origin
  | lent (owner : Nat)
  | copied (stamp : UInt64)
  deriving DecidableEq, Repr

/-- Together `placed`, `handed` and `vacated` tell the whole transfer: the bytes that a write put up,
what a read with the given room then got of them, and how many had gone to readers when the rest was
taken out again. `announced` reaches all blocked calls, `woke` one waker. -/
inductive Effect
  | placed (origin : Origin) (bytes : Bytes)
  | handed (room : Nat) (bytes : Bytes)
  | vacated (passed : Nat)
  | announced
  | woke (waker : Waker)
  | logged (entry : Entry)
  deriving DecidableEq, Repr

structure Step (σ α : Type) where
  value : α
  state : σ
  effects : List Effect

namespace Step

variable {σ τ α β : Type}

def quiet (value : α) (state : σ) : Step σ α :=
  ⟨value, state, []⟩

def map (f : α → β) (s : Step σ α) : Step σ β :=
  ⟨f s.value, s.state, s.effects⟩

def within (s : Step σ α) (f : σ → τ) : Step τ α :=
  ⟨s.value, f s.state, s.effects⟩

/-- The step with effects that take place just before it; `andThen` adds those just after it. -/
def after (s : Step σ α) (effects : List Effect) : Step σ α :=
  { s with effects := effects ++ s.effects }

def andThen (s : Step σ α) (effects : List Effect) : Step σ α :=
  { s with effects := s.effects ++ effects }

@[simp] theorem value_quiet (a : α) (s : σ) : (quiet a s).value = a := rfl
@[simp] theorem state_quiet (a : α) (s : σ) : (quiet a s).state = s := rfl
@[simp] theorem effects_quiet (a : α) (s : σ) : (quiet a s).effects = [] := rfl
@[simp] theorem value_map (f : α → β) (s : Step σ α) : (s.map f).value = f s.value := rfl
@[simp] theorem state_map (f : α → β) (s : Step σ α) : (s.map f).state = s.state := rfl
@[simp] theorem effects_map (f : α → β) (s : Step σ α) : (s.map f).effects = s.effects := rfl
@[simp] theorem value_within (s : Step σ α) (f : σ → τ) : (s.within f).value = s.value := rfl
@[simp] theorem state_within (s : Step σ α) (f : σ → τ) : (s.within f).state = f s.state := rfl
@[simp] theorem effects_within (s : Step σ α) (f : σ → τ) : (s.within f).effects = s.effects := rfl
@[simp] theorem value_after (s : Step σ α) (es : List Effect) : (s.after es).value = s.value := rfl
@[simp] theorem state_after (s : Step σ α) (es : List Effect) : (s.after es).state = s.state := rfl
@[simp] theorem effects_after (s : Step σ α) (es : List Effect) :
    (s.after es).effects = es ++ s.effects := rfl
@[simp] theorem value_andThen (s : Step σ α) (es : List Effect) :
    (s.andThen es).value = s.value := rfl
@[simp] theorem state_andThen (s : Step σ α) (es : List Effect) :
    (s.andThen es).state = s.state := rfl
@[simp] theorem effects_andThen (s : Step σ α) (es : List Effect) :
    (s.andThen es).effects = s.effects ++ es := rfl

end Step

end Handoff
